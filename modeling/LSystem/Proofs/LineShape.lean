import LSystem.Proofs.LineEnds

namespace LSystem

namespace Pixel

/-- How far two pixels are apart on the axis on which they are farther apart. -/
def longGap (p q : Pixel) : Nat := max (p.gapX q) (p.gapY q)

def shortGap (p q : Pixel) : Nat := min (p.gapX q) (p.gapY q)

/-- The pixel with its axes exchanged. -/
def swap (p : Pixel) : Pixel := ⟨p.y, p.x⟩

/-- The pixel seen from the other side: what was at `far` is at zero, and the other way round. -/
def mirrorX (far : Nat) (p : Pixel) : Pixel := ⟨far - p.x, p.y⟩

def mirrorY (far : Nat) (p : Pixel) : Pixel := ⟨p.x, far - p.y⟩

theorem Near.swap {p : Pixel} (h : p.Near) : p.swap.Near := ⟨h.2, h.1⟩

theorem longGap_swap (p q : Pixel) : p.swap.longGap q.swap = p.longGap q := Nat.max_comm _ _

theorem gapX_mirrorX {p q : Pixel} {far : Nat} (hp : p.x ≤ far) (hq : q.x ≤ far) :
    (p.mirrorX far).gapX (q.mirrorX far) = p.gapX q := by
  simp only [gapX, mirrorX]
  omega

end Pixel

/-- Seen from the other side a coordinate is as far on its way. -/
theorem toward_mirror {a b far n : Nat} (ha : a ≤ far) (hb : b ≤ far)
    (hn : n ≤ ((b : Int) - a).natAbs) :
    toward (far - a) (far - b) n = far - toward a b n := by
  unfold toward
  split <;> split <;> omega

namespace LineWalk

variable {start stop start' stop' : Pixel} {k far : Nat}

/-- How far a count of steps along the shorter axis is from the ideal line after `k` steps along
the longer one, where a pixel has `long` parts. -/
def aside (long short k : Nat) (count : Int) : Nat := (count * long - k * short).natAbs

/-- The rounded share is at most half a pixel off, and no other count is nearer. Of two that are
as near it is the greater. -/
theorem advance_nearest (short k : Nat) {long : Nat} (hl : 0 < long) (count : Int) :
    2 * aside long short k (advance long short k) ≤ long ∧
      aside long short k (advance long short k) ≤ aside long short k count ∧
      (aside long short k count = aside long short k (advance long short k) →
        count ≤ advance long short k) := by
  obtain ⟨lower, upper⟩ := advance_bounds short k hl
  generalize advance long short k = n at *
  have own : (n : Int) * long = (n * long : Nat) := (Int.natCast_mul n long).symm
  have ideal : (k : Int) * short = (k * short : Nat) := (Int.natCast_mul k short).symm
  simp only [aside, own, ideal]
  -- Another count is a whole pixel away from this one, which is `long` parts.
  rcases Int.lt_trichotomy count n with less | same | more
  · have below : count * long + long ≤ (n * long : Nat) := by
      have := Int.mul_le_mul_of_nonneg_right less (Int.natCast_nonneg long)
      rwa [Int.add_mul, Int.one_mul, own] at this
    omega
  · rw [same, own]
    omega
  · have above : ((n * long : Nat) : Int) + long ≤ count * long := by
      have := Int.mul_le_mul_of_nonneg_right more (Int.natCast_nonneg long)
      rwa [Int.add_mul, Int.one_mul, own] at this
    omega

/-- The pixel after `k` steps of a line has made its rounded share of them on each axis. -/
def share (start stop : Pixel) (k : Nat) : Pixel :=
  ⟨toward start.x stop.x (advance (start.longGap stop) (start.gapX stop) k),
    toward start.y stop.y (advance (start.longGap stop) (start.gapY stop) k)⟩

theorem line_eq_share (hs : start.Near) (ht : stop.Near) :
    line start stop = (List.range (start.longGap stop + 1)).map (share start stop) := by
  have long : steps start stop = start.longGap stop := steps_eq hs.plain ht.plain
  rw [line_eq_map, long]
  apply List.map_congr_left
  intro k hk
  have within : k ≤ steps start stop := long ▸ Nat.lt_succ_iff.mp (List.mem_range.mp hk)
  rw [pixel_after hs.plain ht.plain within, share, long, reachX_eq_gapX hs.plain ht.plain,
    reachY_eq_gapY hs.plain ht.plain]

/-- Along the longer axis the share is every step. -/
theorem share_eq (hk : k ≤ start.longGap stop) :
    share start stop k =
      if start.gapY stop ≤ start.gapX stop then
        ⟨toward start.x stop.x k,
          toward start.y stop.y (advance (start.longGap stop) (start.shortGap stop) k)⟩
      else
        ⟨toward start.x stop.x (advance (start.longGap stop) (start.shortGap stop) k),
          toward start.y stop.y k⟩ := by
  split
  · rename_i flat
    have long : start.longGap stop = start.gapX stop := Nat.max_eq_left flat
    have short : start.shortGap stop = start.gapY stop := Nat.min_eq_right flat
    rw [long] at hk
    rw [share, long, short, advance_long hk]
  · rename_i steep
    have steep : start.gapX stop ≤ start.gapY stop := Nat.le_of_not_le steep
    have long : start.longGap stop = start.gapY stop := Nat.max_eq_right steep
    have short : start.shortGap stop = start.gapX stop := Nat.min_eq_left steep
    rw [long] at hk
    rw [share, long, short, advance_long hk]

theorem getElem?_take (hs : start.Near) (ht : stop.Near) (n k : Nat) (p : Pixel) :
    ((between start stop).take n)[k]? = some p ↔
      k < n ∧ k ≤ start.longGap stop ∧ p = share start stop k := by
  rw [take_between, line_eq_share hs ht, List.getElem?_take, List.getElem?_map]
  by_cases asked : k < n
  · rw [if_pos asked, Option.map_eq_some_iff]
    simp only [List.getElem?_eq_some_iff, List.length_range, List.getElem_range, asked, true_and]
    constructor
    · rintro ⟨_, ⟨within, rfl⟩, rfl⟩
      exact ⟨Nat.lt_succ_iff.mp within, rfl⟩
    · rintro ⟨within, rfl⟩
      exact ⟨k, ⟨Nat.lt_succ_iff.mpr within, rfl⟩, rfl⟩
  · simp [asked]

/-- A change of pixels that takes the shares of one line to those of another takes the walk along
the one to the walk along the other. -/
theorem take_map (hs : start.Near) (ht : stop.Near) (hs' : start'.Near) (ht' : stop'.Near)
    (change : Pixel → Pixel) (long : start'.longGap stop' = start.longGap stop)
    (each : ∀ k ≤ start.longGap stop, share start' stop' k = change (share start stop k))
    (n : Nat) : (between start' stop').take n = ((between start stop).take n).map change := by
  rw [take_between, take_between, List.map_take, line_eq_share hs ht, line_eq_share hs' ht', long,
    List.map_map]
  congr 1
  apply List.map_congr_left
  intro k hk
  exact each k (Nat.lt_succ_iff.mp (List.mem_range.mp hk))

theorem take_swap (hs : start.Near) (ht : stop.Near) (n : Nat) :
    (between start.swap stop.swap).take n = ((between start stop).take n).map Pixel.swap := by
  have long := start.longGap_swap stop
  refine take_map hs ht hs.swap ht.swap Pixel.swap long ?_ n
  intro k _
  rw [share, long]
  rfl

theorem take_mirrorX (hs : start.Near) (ht : stop.Near) (hs' : (start.mirrorX far).Near)
    (ht' : (stop.mirrorX far).Near) (hx : start.x ≤ far) (hx' : stop.x ≤ far) (n : Nat) :
    (between (start.mirrorX far) (stop.mirrorX far)).take n =
      ((between start stop).take n).map (Pixel.mirrorX far) := by
  have gapX := Pixel.gapX_mirrorX hx hx'
  have gapY : (start.mirrorX far).gapY (stop.mirrorX far) = start.gapY stop := rfl
  have long : (start.mirrorX far).longGap (stop.mirrorX far) = start.longGap stop := by
    rw [Pixel.longGap, gapX, gapY, Pixel.longGap]
  refine take_map hs ht hs' ht' _ long ?_ n
  intro k hk
  have behind : advance (start.longGap stop) (start.gapX stop) k ≤ start.gapX stop := advance_le hk
  have turned := toward_mirror hx hx' behind
  rw [share, long, gapX, gapY]
  exact congrArg (Pixel.mk · _) turned

/-- With the axes exchanged this is the mirror of the first axis. -/
theorem take_mirrorY (hs : start.Near) (ht : stop.Near) (hs' : (start.mirrorY far).Near)
    (ht' : (stop.mirrorY far).Near) (hy : start.y ≤ far) (hy' : stop.y ≤ far) (n : Nat) :
    (between (start.mirrorY far) (stop.mirrorY far)).take n =
      ((between start stop).take n).map (Pixel.mirrorY far) := by
  calc (between (start.mirrorY far) (stop.mirrorY far)).take n
      = ((between (start.swap.mirrorX far) (stop.swap.mirrorX far)).take n).map Pixel.swap :=
        take_swap hs'.swap ht'.swap n
    _ = (((between start.swap stop.swap).take n).map (Pixel.mirrorX far)).map Pixel.swap := by
        rw [take_mirrorX hs.swap ht.swap hs'.swap ht'.swap hy hy']
    _ = ((between start stop).take n).map (Pixel.mirrorY far) := by
        rw [take_swap hs ht, List.map_map, List.map_map]
        rfl

/-- Every pixel that a walk comes by is the one nearest to the ideal line: while the longer axis
advances by one at every step, the shorter one has its share of the steps rounded, and a tie goes
away from the start. This is so in every direction, hence lines that are each other's image in an
exchange of the axes or in a mirror have walks that are so too. -/
theorem keeps_to_ideal_line (hs : start.Near) (ht : stop.Near)
    (apart : 0 < start.longGap stop) :
    let long := start.longGap stop
    let short := start.shortGap stop
    let count (k : Nat) : Nat := (2 * k * short + long) / (2 * long)
    (∀ n k p, ((between start stop).take n)[k]? = some p ↔ k < n ∧ k ≤ long ∧
      p = if start.gapY stop ≤ start.gapX stop then
          ⟨toward start.x stop.x k, toward start.y stop.y (count k)⟩
        else ⟨toward start.x stop.x (count k), toward start.y stop.y k⟩) ∧
    (∀ (k : Nat) (other : Int), 2 * aside long short k (count k) ≤ long ∧
      aside long short k (count k) ≤ aside long short k other ∧
      (aside long short k other = aside long short k (count k) → other ≤ count k)) ∧
    ∀ n, (between start.swap stop.swap).take n = ((between start stop).take n).map Pixel.swap ∧
      ∀ far,
        (start.x ≤ far → stop.x ≤ far → (start.mirrorX far).Near → (stop.mirrorX far).Near →
          (between (start.mirrorX far) (stop.mirrorX far)).take n =
            ((between start stop).take n).map (Pixel.mirrorX far)) ∧
        (start.y ≤ far → stop.y ≤ far → (start.mirrorY far).Near → (stop.mirrorY far).Near →
          (between (start.mirrorY far) (stop.mirrorY far)).take n =
            ((between start stop).take n).map (Pixel.mirrorY far)) := by
  intro long short count
  refine ⟨?_, ?_, ?_⟩
  · intro n k p
    rw [getElem?_take hs ht]
    refine and_congr_right (fun _ => and_congr_right (fun within => ?_))
    rw [share_eq within]
    rfl
  · intro k other
    exact advance_nearest short k apart other
  · intro n
    refine ⟨take_swap hs ht n, fun far => ⟨?_, ?_⟩⟩
    · intro hx hx' hs' ht'
      exact take_mirrorX hs ht hs' ht' hx hx' n
    · intro hy hy' hs' ht'
      exact take_mirrorY hs ht hs' ht' hy hy' n

/-- The first step of this line is a tie, and so is the third: both times the pixel away from the
start is taken, whichever way the line leads. -/
theorem keeps_to_ideal_line_tied :
    let start : Pixel := ⟨4, 0⟩
    let stop : Pixel := ⟨0, 2⟩
    start.Near ∧ stop.Near ∧ 0 < start.longGap stop ∧
      aside 4 2 1 0 = aside 4 2 1 1 ∧
      ((between start stop).take 9)[1]? = some ⟨3, 1⟩ ∧
      ((between start stop).take 9)[3]? = some ⟨1, 2⟩ ∧
      (between (start.mirrorX 4) (stop.mirrorX 4)).take 9 =
        ((between start stop).take 9).map (Pixel.mirrorX 4) := by
  intro start stop
  have hs : start.Near := by decide
  have ht : stop.Near := by decide
  have apart : 0 < start.longGap stop := by decide
  obtain ⟨pixels, -, images⟩ := keeps_to_ideal_line hs ht apart
  refine ⟨hs, ht, apart, rfl, ?_, ?_, ?_⟩
  · exact (pixels 9 1 ⟨3, 1⟩).mpr (by decide)
  · exact (pixels 9 3 ⟨1, 2⟩).mpr (by decide)
  · exact ((images 9).2 4).1 (by decide) (by decide) (by decide) (by decide)

end LineWalk
end LSystem
