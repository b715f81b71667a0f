import Mathlib.Algebra.GroupWithZero.Nat
import Mathlib.Data.List.Basic
import CompactDisc.Proofs.Sound.Passages

/-!
# CompactDisc.Proofs.Sound.Heard

**What is heard of a request, pump by pump.** The passages are heard from the front, every one but the
last to the end of its source. Of the last one, as much is heard as the pumps have asked for by the time
the request is done (`Passage.Reach`): the first sum of them that reaches its end.

Two players that are pumped differently so hear the same frames but for this last sum. If all pumps ask
for the same number of frames, it is the first multiple of that number (`Passage.Reach.eq_of_const`).
-/

namespace CompactDisc

namespace Passage

/-- The frames of passages, of the last one only so many. -/
def cut : List Passage → Nat → List Decoded
  | [], _ => []
  | [p], x => p.decoded (p.frames.take x)
  | p :: q :: rest, x => p.decoded p.frames ++ cut (q :: rest) x

/-- How many frames pumps have asked for when they reach the end of a passage. -/
structure Reach (p : Passage) (pumps : List Nat) (x : Nat) : Prop where
  enough : max p.total 1 ≤ x
  tight : ∃ n ∈ pumps, x < max p.total 1 + n
  dvd : ∀ g, (∀ n ∈ pumps, g ∣ n) → g ∣ x

variable {p q : Passage} {ps : List Passage} {x k n m : Nat} {pumps ns : List Nat}

/-- The first multiple of the size of pumps that is not before the end of a passage. -/
def reached (p : Passage) (n : Nat) : Nat := n * divUp (max p.total 1) n

theorem le_reached (p : Passage) (hn : 0 < n) : max p.total 1 ≤ p.reached n := by
  rw [reached, Nat.mul_comm]
  exact le_divUp_mul hn _

theorem reached_lt (p : Passage) (hn : 0 < n) : p.reached n < max p.total 1 + n := by
  rw [reached, Nat.mul_comm]
  exact divUp_mul_lt hn _

/-- Any pump reaches the end, if it is repeated. -/
theorem exists_reach (p : Passage) (hmem : n ∈ pumps) (hn : 0 < n) : ∃ x, p.Reach pumps x :=
  ⟨p.reached n, p.le_reached hn, ⟨n, hmem, p.reached_lt hn⟩,
    fun _ hg => Nat.dvd_mul_right_of_dvd (hg n hmem) _⟩

/-! ### Parts of a cut -/

@[simp] theorem length_decoded (p : Passage) (frames : List (List UInt8)) :
    (p.decoded frames).length = frames.length := List.length_map _

theorem take_cut (hx : ps = [] → n ≤ x) (hn : n ≤ p.frames.length) :
    (cut (p :: ps) x).take n = p.decoded (p.frames.take n) := by
  cases ps with
  | nil =>
      rw [cut, decoded, ← List.map_take, List.take_take, Nat.min_eq_left (hx rfl)]
      rfl
  | cons q rest =>
      rw [cut, List.take_append_of_le_length (by simpa using hn), decoded, ← List.map_take]
      rfl

/-- The frames of a cut from one place to another. -/
theorem drop_cut (hx : ps = [] → k + min n (p.frames.length - k) ≤ x)
    (hk : k ≤ p.frames.length) :
    (cut (p :: ps) x).drop k = p.decoded ((p.frames.drop k).take n) ++
      (cut (p :: ps) x).drop (k + min n (p.frames.length - k)) := by
  have htaken : ((cut (p :: ps) x).drop k).take (min n (p.frames.length - k)) =
      p.decoded ((p.frames.drop k).take n) := by
    rw [List.take_drop, take_cut hx (by omega), decoded, ← List.map_drop, ← List.take_drop,
      ← List.length_drop, ← List.take_eq_take_min]
    rfl
  rw [← htaken, ← List.drop_drop, List.take_append_drop]

theorem drop_cut_cons (p q : Passage) (ps : List Passage) (x : Nat) :
    (cut (p :: q :: ps) x).drop p.frames.length = cut (q :: ps) x := by
  rw [cut, List.drop_append_of_le_length (by simp), List.drop_of_length_le (by simp),
    List.nil_append]

theorem drop_cut_singleton (p : Passage) (x : Nat) : (cut [p] x).drop p.frames.length = [] := by
  refine List.drop_of_length_le ?_
  rw [cut, length_decoded]
  exact List.length_take_le' _ _

/-- The frames of a passage before the end of the request. -/
def due (p : Passage) : List Decoded := p.decoded (p.frames.take p.total)

/-- Of all passages but the last, a cut has everything. -/
theorem cut_append (front : List Passage) (p : Passage) (rest : List Passage) (x : Nat) :
    cut (front ++ p :: rest) x =
      front.flatMap (fun q => q.decoded q.frames) ++ cut (p :: rest) x := by
  induction front with
  | nil => rfl
  | cons q front ih =>
      obtain ⟨next, more, heq⟩ : ∃ next more, front ++ p :: rest = next :: more :=
        List.exists_cons_of_ne_nil (by simp)
      rw [heq] at ih
      rw [List.cons_append, heq, cut, ih, List.flatMap_cons, List.append_assoc]

/-- Of a passage that has fewer frames than are asked for, too. -/
theorem cut_cons (p : Passage) (rest : List Passage) (hlast : rest = [] → p.frames.length ≤ x) :
    cut (p :: rest) x = p.decoded p.frames ++ cut rest x := by
  cases rest with
  | nil =>
      show p.decoded (p.frames.take x) = p.decoded p.frames ++ []
      rw [List.take_of_length_le (hlast rfl), List.append_nil]
  | cons q rest => rfl

end Passage

/-! ### Places on a passage -/

namespace Passage

variable {p : Passage} {k n : Nat} {pumps : List Nat}

/-- A place on a passage that pumps lead to: a sum of them, unless the source has run dry. -/
def Place (p : Passage) (pumps : List Nat) (k : Nat) : Prop :=
  (∀ g, (∀ n ∈ pumps, g ∣ n) → g ∣ k) ∨ k = p.frames.length

theorem place_zero (p : Passage) (pumps : List Nat) : p.Place pumps 0 :=
  Or.inl fun g _ => Nat.dvd_zero g

/-- Behind what one more pump gives. -/
theorem Place.next (h : p.Place pumps k) (hmem : n ∈ pumps) (hk : k ≤ p.frames.length) :
    p.Place pumps (k + min n (p.frames.length - k)) := by
  rcases Nat.le_total n (p.frames.length - k) with hwhole | hpart
  · rcases h with hsum | hdry
    · rw [Nat.min_eq_left hwhole]
      exact Or.inl fun g hg => Nat.dvd_add (hsum g hg) (hg n hmem)
    · exact Or.inr (by omega)
  · exact Or.inr (by omega)

/-- The pump that passes the end of a passage is the one that reaches it. -/
theorem Place.reach (h : p.Place pumps k) (hmem : n ∈ pumps) (hn : 0 < n) (hdue : k < max p.total 1)
    (hend : p.total ≤ k + min n (p.frames.length - k)) : p.Reach pumps (k + n) where
  enough := by omega
  tight := ⟨n, hmem, by omega⟩
  dvd g hg := by
    rcases h with hsum | hdry
    · exact Nat.dvd_add (hsum g hg) (hg n hmem)
    · -- an empty passage without an end is over at once
      have hzero : k = 0 := by omega
      rw [hzero, Nat.zero_add]
      exact hg n hmem

end Passage

/-! ### Pumps -/

namespace Deck

variable {d e : Deck} {medium : Medium} {p q : Passage} {rest : List Passage} {k n : Nat}
  {ns all : List Nat}

/-- From one deck to another, passages are heard from a place on the first one to the end of the request,
the last one as far as pumps have asked by then; and the output has the rate of its source. -/
def Hears (d e : Deck) (ps : List Passage) (pumps : List Nat) (k : Nat) : Prop :=
  ∃ (chunks : List Chunk) (x : Nat), e.samples = d.samples ++ chunks.flatMap Chunk.samples ∧
    (∀ last ∈ ps.getLast?, last.Reach pumps x ∧ e.rate? = some last.plan.source.rate) ∧
    chunks.flatMap Chunk.decoded = (Passage.cut ps x).drop k

namespace On

/-- The pull that ends the request. -/
theorem hears_end (h : d.On medium p k) (hn : 0 < n) (hreach : p.Reach all (k + n))
    (hrate : (d.pull n).rate? = some p.plan.source.rate) : d.Hears (d.pull n) [p] all k := by
  refine ⟨[h.chunk n], k + n, ?_, ?_, ?_⟩
  · rw [h.samples_pull hn, List.flatMap_singleton]
  · intro last hlast
    cases hlast
    exact ⟨hreach, hrate⟩
  · have hnone : (Passage.cut [p] (k + n)).drop (k + min n (p.frames.length - k)) = [] := by
      refine List.drop_of_length_le ?_
      rw [Passage.cut, Passage.length_decoded, List.length_take]
      omega
    rw [Passage.drop_cut (n := n) (fun _ => by omega) h.heard, hnone, List.append_nil,
      List.flatMap_singleton]
    rfl

/-- A pull on the way. -/
theorem hears_more (h : d.On medium p k) (hn : 0 < n)
    (hleft : k + min n (p.frames.length - k) < p.total)
    (hlater : (d.pull n).Hears e (p :: rest) all (k + min n (p.frames.length - k))) :
    d.Hears e (p :: rest) all k := by
  obtain ⟨chunks, x, hsamples, hlast, hframes⟩ := hlater
  refine ⟨h.chunk n :: chunks, x, ?_, hlast, ?_⟩
  · rw [hsamples, h.samples_pull hn, List.flatMap_cons, List.append_assoc]
  · have hx : rest = [] → k + min n (p.frames.length - k) ≤ x := by
      intro hlone
      have henough := (hlast p (by simp [hlone])).1.enough
      omega
    rw [Passage.drop_cut hx h.heard, List.flatMap_cons, hframes]
    rfl

/-- At the end of the source a pull brings nothing. -/
theorem samples_dry (h : d.On medium p k) (hn : 0 < n) (hk : p.frames.length = k) :
    (d.pull n).samples = d.samples := by
  have hnothing : (h.chunk n).samples = [] := by
    simp [Chunk.samples, chunk, ← hk]
  rw [h.samples_pull hn, hnothing, List.append_nil]

/-- The source has run dry, and so has the request. -/
theorem hears_dry (h : d.On medium p k) (hn : 0 < n) (hmem : n ∈ all) (hk : p.frames.length = k)
    (hrate : (d.pull n).rate? = some p.plan.source.rate) : d.Hears (d.pull n) [p] all k := by
  obtain ⟨x, hreach⟩ := p.exists_reach hmem hn
  refine ⟨[], x, ?_, ?_, ?_⟩
  · rw [h.samples_dry hn hk]
    exact (List.append_nil _).symm
  · intro last hlast
    cases hlast
    exact ⟨hreach, hrate⟩
  · rw [← hk, Passage.drop_cut_singleton]
    rfl

/-- The source has run dry, and the request goes on with the next passage. -/
theorem hears_next (h : d.On medium p k) (hn : 0 < n) (hk : p.frames.length = k)
    (hlater : (d.pull n).Hears e (q :: rest) all 0) : d.Hears e (p :: q :: rest) all k := by
  obtain ⟨chunks, x, hsamples, hlast, hframes⟩ := hlater
  refine ⟨chunks, x, by rw [hsamples, h.samples_dry hn hk], fun last hmem => ?_, ?_⟩
  · exact hlast last (by simpa using hmem)
  · rw [hframes, List.drop_zero, ← hk, Passage.drop_cut_cons]

end On

/-- **What is heard from a place on a passage on**, once the output is off. -/
theorem On.collects (h : d.On medium p k) (hall : ∀ n ∈ all, 0 < n) (hns : ∀ n ∈ ns, n ∈ all)
    (hplace : p.Place all k) (hoff : (d.pumps ns).isOn = false) :
    d.Hears (d.pumps ns) (p :: medium.disc.behind p) all k := by
  induction ns generalizing d p k with
  | nil => exact absurd (h.enabled.symm.trans hoff) Bool.noConfusion
  | cons n ns ih =>
      have hmem := hns n List.mem_cons_self
      have hn := hall n hmem
      have hrest : ∀ m ∈ ns, m ∈ all := fun m hm => hns m (List.mem_cons_of_mem _ hm)
      have hheard := h.heard
      rw [pumps_cons_of_on h.enabled] at hoff ⊢
      rcases h.pull_cases hn with ⟨hstop, hrate, hend⟩ | ⟨-, hleft, hnext⟩ |
        ⟨hk, -, ⟨hstop, hrate, hlast⟩ | ⟨q, hbehind, -, -, -, hnext⟩⟩
      · have hlast : medium.disc.behind p = [] := Disc.behind_of_enough (by omega)
        rw [pumps_of_off hstop, hlast]
        exact h.hears_end hn (hplace.reach hmem hn h.due hend) hrate
      · exact h.hears_more hn hleft (ih hnext hrest (hplace.next hmem hheard) hoff)
      · rw [pumps_of_off hstop, hlast]
        exact h.hears_dry hn hmem hk hrate
      · rw [hbehind]
        exact h.hears_next hn hk (ih hnext hrest (q.place_zero all) hoff)

/-- **A request ends**, after no more pumps than it has frames and sectors. -/
theorem On.ends (h : d.On medium p k) (hns : ∀ n ∈ ns, 0 < n)
    (hmany : p.frames.length - k +
      ((medium.disc.behind p).map (·.frames.length)).sum + p.plan.length ≤ ns.length) :
    (d.pumps ns).isOn = false := by
  -- a pump takes a frame off the passages, or its passage takes a sector off the request
  induction ns generalizing d p k with
  | nil =>
      have hpos := h.length_pos
      rw [List.length_nil] at hmany
      omega
  | cons n ns ih =>
      have hn := hns n List.mem_cons_self
      have hrest : ∀ n ∈ ns, 0 < n := fun m hm => hns m (List.mem_cons_of_mem _ hm)
      rw [List.length_cons] at hmany
      rw [pumps_cons_of_on h.enabled]
      rcases h.pull_cases hn with ⟨hstop, -, -⟩ | ⟨hmore, -, hnext⟩ | ⟨-, -, hnext⟩
      · rw [pumps_of_off hstop, hstop]
      · exact ih hnext hrest (by omega)
      · rcases hnext with ⟨hstop, -, -⟩ | ⟨q, hbehind, -, -, hless, hnext⟩
        · rw [pumps_of_off hstop, hstop]
        · rw [hbehind, List.map_cons, List.sum_cons] at hmany
          exact ih hnext hrest (by omega)

/-- **What a channel collects of a request.** Its passages are heard from the front, each but the last
to the end of its source, and the last one as far as the pumps have asked by the time the request is
done. The channel then has the rate of the last source. The output goes off after no more pumps than
there are frames on the passages and sectors in the request. -/
theorem heard_of_play {start length : Nat} (houtput : d.channel?.isSome = true)
    (hopen : medium.disc.OpenIn d.cursors)
    (hnumbered : Disc.Numbered (medium.disc.passages start length))
    (hok : (d.play medium start length).1 = .ok ()) (hns : ∀ n ∈ ns, 0 < n) :
    let begun := (d.play medium start length).2
    let passages := medium.disc.passages start length
    ((begun.pumps ns).isOn = false → ∃ (chunks : List Chunk) (x : Nat),
      (begun.pumps ns).samples = d.samples ++ chunks.flatMap Chunk.samples ∧
      (∀ last ∈ passages.getLast?,
        last.Reach ns x ∧ (begun.pumps ns).rate? = some last.plan.source.rate) ∧
      chunks.flatMap Chunk.decoded = Passage.cut passages x) ∧
    ((passages.map (·.frames.length)).sum + length ≤ ns.length → (begun.pumps ns).isOn = false) := by
  intro begun passages
  rcases play_passage houtput hopen hnumbered with ⟨-, ⟨e, he⟩, -⟩ | ⟨p, hp, -, hon⟩
  · rw [hok] at he
    cases he
  · have hpassages : passages = p :: medium.disc.behind p := Disc.passages_of_some hp
    rw [hpassages]
    refine ⟨fun hoff => ?_, fun hmany => hon.ends hns ?_⟩
    · obtain ⟨chunks, x, hsamples, hlast, hframes⟩ :=
        hon.collects hns (fun n hn => hn) (p.place_zero ns) hoff
      rw [samples_play] at hsamples
      exact ⟨chunks, x, hsamples, hlast, hframes⟩
    · have hlength := Plan.length_le_of_find (Disc.passage?_eq_some_iff.mp hp).1
      rw [List.map_cons, List.sum_cons] at hmany
      omega

end Deck

end CompactDisc
