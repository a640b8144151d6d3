import LSystem.Random.Block

namespace LSystem

/-- A stream of words: its key, how many words were taken, and the block with the next one. -/
structure Generator where
  key : Vector UInt32 8
  taken : Nat
  current : Random.Block
  current_eq : current = Random.block key (UInt64.ofNat (taken / 16))

namespace Generator

def startOf (key : Vector UInt32 8) : Generator := ⟨key, 0, Random.block key 0, rfl⟩

def advance (s : UInt64) : UInt64 := s * 6364136223846793005 + 11634580027462260723

def scrambled (s : UInt64) : UInt32 :=
  Random.rotateRight (((s >>> 18) ^^^ s) >>> 27).toUInt32 (s >>> 59).toUInt32

/-- The key words come from a congruential sequence that the seed starts. -/
def keyWords : Nat → UInt64 → List UInt32
  | 0, _ => []
  | n + 1, s => scrambled (advance s) :: keyWords n (advance s)

theorem length_keyWords (n : Nat) (s : UInt64) : (keyWords n s).length = n := by
  induction n generalizing s with
  | zero => rfl
  | succ n ih => simp [keyWords, ih]

def ofSeed (seed : UInt64) : Generator :=
  startOf ⟨(keyWords 8 seed).toArray, by simp [length_keyWords]⟩

def word (g : Generator) : UInt32 := g.current[g.taken % 16]

def next (g : Generator) : Generator :=
  if same : (g.taken + 1) / 16 = g.taken / 16 then
    { g with taken := g.taken + 1, current_eq := by rw [same]; exact g.current_eq }
  else
    ⟨g.key, g.taken + 1, Random.block g.key (UInt64.ofNat ((g.taken + 1) / 16)), rfl⟩

/-- The generator after `n` more words. -/
def skip (g : Generator) : Nat → Generator
  | 0 => g
  | n + 1 => g.next.skip n

theorem skip_add (g : Generator) (m n : Nat) : g.skip (m + n) = (g.skip m).skip n := by
  induction m generalizing g with
  | zero => simp [skip]
  | succ m ih => rw [Nat.succ_add]; exact ih g.next

/-- The high 23 bits of a word, as a fraction of one. -/
def fraction (g : Generator) : Float32 :=
  (g.word >>> 9).toUInt64.toFloat32 / (8388608 : UInt64).toFloat32

def draw (g : Generator) : Float32 × Generator := (g.fraction, g.next)

/-- The number that is drawn after `i` others. -/
def drawAt (g : Generator) (i : Nat) : Float32 := (g.skip i).draw.1

/-- Drawing goes on where it was left. -/
theorem drawAt_skip (g : Generator) (n i : Nat) : (g.skip n).drawAt i = g.drawAt (n + i) := by
  rw [drawAt, drawAt, skip_add]

end Generator
end LSystem
