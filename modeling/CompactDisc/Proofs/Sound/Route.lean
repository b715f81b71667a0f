import CompactDisc.Proofs.Source.Decode

/-!
# CompactDisc.Proofs.Sound.Route

**Where a request leads.** A request is played in passages. Each begins with what `Plan.find` finds,
and goes on to the end of its file; if the request is not done then, the sectors that the passage
lasted are counted as played and the next one begins behind them. `Disc.route` writes this out in
advance, as the list of frames that a request can lead to.

`Collected` says what the sound of a request is made of: it comes from the front of some frames, and
the end of the request decides how far it goes, but for less than one pump.
-/

namespace CompactDisc

/-- A sample frame on a disc: where it is stored, and the sector that it is played for. -/
structure Frame where
  source : Source
  byte : Nat
  sector : Nat

namespace Frame

/-- The two samples of a frame. -/
def sound (f : Frame) : List Int16 := (f.source.contents.getD .empty).soundAt f.byte

end Frame

/-- Frames of a source from a byte to the end, played for the sectors from a given one on. -/
def Source.framesFrom (s : Source) (byte sector : Nat) : List Frame :=
  (List.range ((s.contents.getD .empty).framesFrom byte)).map fun j =>
    ⟨s, byte + 4 * j, sector + j / 588⟩

namespace Plan

/-- The frames from the beginning of a plan to the end of its source. -/
def frames (plan : Plan) : List Frame := plan.source.framesFrom plan.offset plan.start

/-- Sectors that are counted as played when the source has run dry. -/
def done (plan : Plan) : Nat := divUp plan.frames.length 588

/-- Whether the source runs dry before the request is done. -/
def RunsDry (plan : Plan) : Prop := 0 < plan.done ∧ plan.frames.length < 588 * plan.length

instance (plan : Plan) : Decidable plan.RunsDry :=
  inferInstanceAs (Decidable (_ ∧ _))

theorem done_le {plan : Plan} (h : plan.RunsDry) : plan.done ≤ plan.length := by
  unfold done
  rw [divUp_le_iff (by decide)]
  have hdry := h.2
  omega

end Plan

/-- The frames that a request can lead to, in order. -/
def Disc.route (disc : Disc) (start length : Nat) : List Frame :=
  match _found : Plan.find disc true start length with
  | .error _ => []
  | .ok plan =>
    if _dry : plan.RunsDry then
      plan.frames ++ disc.route (plan.start + plan.done) (plan.length - plan.done)
    else plan.frames
  termination_by length
  decreasing_by
    have hlength := Plan.length_le_of_find _found
    have hdone := Plan.done_le _dry
    have hpos := _dry.1
    omega

/-- What comes after the frames of a plan. -/
def Plan.after (plan : Plan) (disc : Disc) : List Frame :=
  if plan.RunsDry then disc.route (plan.start + plan.done) (plan.length - plan.done) else []

theorem Disc.route_of_error {disc : Disc} {start length : Nat} {e : PlayerError}
    (h : Plan.find disc true start length = .error e) : disc.route start length = [] := by
  rw [route]
  split
  · rfl
  · rename_i hfound
    rw [h] at hfound
    cases hfound

theorem Disc.route_of_plan {disc : Disc} {start length : Nat} {plan : Plan}
    (h : Plan.find disc true start length = .ok plan) :
    disc.route start length = plan.frames ++ plan.after disc := by
  rw [route]
  split
  · rename_i hfound
    rw [h] at hfound
    cases hfound
  · rename_i plan' hfound
    rw [h] at hfound
    cases hfound
    unfold Plan.after
    split
    · rfl
    · exact (List.append_nil _).symm

theorem Disc.route_eq_nil {disc : Disc} {start length : Nat}
    (h : ∀ plan, Plan.find disc true start length ≠ .ok plan) : disc.route start length = [] := by
  cases hfind : Plan.find disc true start length with
  | error e => exact route_of_error hfind
  | ok plan => exact absurd hfind (h plan)

/-- A route is followed passage by passage. -/
theorem Disc.route_induction {disc : Disc} {motive : Nat → Nat → List Frame → Prop}
    (refused : ∀ start length, (∀ plan, Plan.find disc true start length ≠ .ok plan) →
      motive start length [])
    (last : ∀ start length plan, Plan.find disc true start length = .ok plan → ¬ plan.RunsDry →
      motive start length plan.frames)
    (next : ∀ start length plan, Plan.find disc true start length = .ok plan → plan.RunsDry →
      motive (plan.start + plan.done) (plan.length - plan.done)
        (disc.route (plan.start + plan.done) (plan.length - plan.done)) →
      motive start length
        (plan.frames ++ disc.route (plan.start + plan.done) (plan.length - plan.done)))
    (start length : Nat) : motive start length (disc.route start length) := by
  induction start, length using Disc.route.induct disc with
  | case1 start length e hfind =>
      rw [route_of_error hfind]
      refine refused start length fun plan hplan => ?_
      rw [hfind] at hplan
      cases hplan
  | case2 start length plan hfind hdry ih =>
      rw [route_of_plan hfind]
      unfold Plan.after
      rw [if_pos hdry]
      exact next start length plan hfind hdry ih
  | case3 start length plan hfind hdry =>
      rw [route_of_plan hfind]
      unfold Plan.after
      rw [if_neg hdry, List.append_nil]
      exact last start length plan hfind hdry

/-- A plan in a file that is known, which it begins inside, and whose sectors can be numbered up to the
end of the file. -/
structure Plan.Stored (plan : Plan) (known : Nat) : Prop where
  format : ∃ size, plan.source.format = .binary size
  bytes : plan.source.contents.isSome = true
  inside : plan.offset ≤ (plan.source.contents.getD .empty).size
  known : plan.source.id < known
  numbered : plan.start + plan.done < RedBook.sectorNumbers

/-- Whatever is asked of the disc is found in files that are known. -/
def Disc.Stored (disc : Disc) (known : Nat) : Prop :=
  ∀ hasOutput start length plan, Plan.find disc hasOutput start length = .ok plan →
    plan.Stored known

/-- **What a channel collects** of some frames when a request ends at a sector: every frame before
that sector, and fewer frames behind it than one of the pumps asked for. -/
def Collected (frames : List Frame) (stop : Nat) (pumps : List Nat) (samples : List Int16) : Prop :=
  ∃ due late rest, frames = due ++ late ++ rest ∧ samples = (due ++ late).flatMap Frame.sound ∧
    (∀ f ∈ due, f.sector < stop) ∧ (∀ f ∈ late ++ rest, stop ≤ f.sector) ∧
    ∃ n ∈ pumps, late.length < n

/-! ### Places on a passage -/

theorem take_drop_range (size k n : Nat) :
    ((List.range size).drop k).take n = (List.range (min n (size - k))).map (k + ·) := by
  apply List.ext_getElem
  · simp
  · intro i _ _
    simp

namespace Source

variable {s : Source} {byte sector : Nat}

@[simp] theorem length_framesFrom (s : Source) (byte sector : Nat) :
    (s.framesFrom byte sector).length = (s.contents.getD .empty).framesFrom byte := by
  unfold framesFrom
  rw [List.length_map, List.length_range]

theorem mem_framesFrom_drop {k : Nat} {f : Frame} (h : f ∈ (s.framesFrom byte sector).drop k) :
    ∃ j, k ≤ j ∧ f = ⟨s, byte + 4 * j, sector + j / 588⟩ := by
  unfold framesFrom at h
  rw [← List.map_drop, List.mem_map] at h
  obtain ⟨j, hj, rfl⟩ := h
  rw [List.range_eq_range', List.drop_range', List.mem_range'_1] at hj
  exact ⟨j, by omega, rfl⟩

theorem mem_framesFrom_take {k : Nat} {f : Frame} (h : f ∈ (s.framesFrom byte sector).take k) :
    ∃ j, j < k ∧ f = ⟨s, byte + 4 * j, sector + j / 588⟩ := by
  unfold framesFrom at h
  rw [← List.map_take, List.mem_map] at h
  obtain ⟨j, hj, rfl⟩ := h
  rw [List.take_range, List.mem_range] at hj
  exact ⟨j, by omega, rfl⟩

/-- The sound that is decoded behind some frames. -/
theorem sound_framesFrom {c : Contents} (hc : s.contents.getD .empty = c) {k : Nat}
    (hk : k ≤ c.framesFrom byte) (n : Nat) :
    (List.range (min n (c.framesFrom (byte + min (k * 4) (c.size - byte))))).flatMap
        (fun j => c.soundAt (byte + min (k * 4) (c.size - byte) + 4 * j)) =
      (((s.framesFrom byte sector).drop k).take n).flatMap Frame.sound := by
  unfold framesFrom
  rw [Contents.framesFrom_add, Nat.min_eq_left hk, hc, ← List.map_drop, ← List.map_take,
    take_drop_range, List.flatMap_map, List.flatMap_map, List.flatMap_def, List.flatMap_def]
  refine congrArg List.flatten (List.map_congr_left fun j hj => ?_)
  rw [List.mem_range] at hj
  -- there is a frame behind these, so they are whole
  have hwhole : k * 4 ≤ c.size - byte := by
    have hmore : k < c.framesFrom byte := by omega
    unfold Contents.framesFrom divUp at hmore
    omega
  show c.soundAt _ = (s.contents.getD .empty).soundAt (byte + 4 * (k + j))
  rw [hc, Nat.min_eq_left hwhole]
  congr 1
  omega

end Source

namespace Plan

/-- The bytes behind a plan. -/
def contents (plan : Plan) : Contents := plan.source.contents.getD .empty

theorem length_frames (plan : Plan) :
    plan.frames.length = plan.contents.framesFrom plan.offset := Source.length_framesFrom _ _ _

/-- Sectors that are counted as played when the file is at its end, by the bytes. -/
theorem done_of_contents {plan : Plan} {contents : Contents}
    (hcontents : plan.source.contents = some contents) :
    plan.done = divUp (contents.size - plan.offset) 2352 := by
  unfold done
  rw [plan.length_frames]
  unfold Plan.contents
  rw [hcontents]
  exact divUp_divUp (by decide) (by decide) _

theorem mem_frames {plan : Plan} {f : Frame} (h : f ∈ plan.frames) :
    ∃ j, f = ⟨plan.source, plan.offset + 4 * j, plan.start + j / 588⟩ := by
  rw [← List.drop_zero (l := plan.frames)] at h
  obtain ⟨j, -, rfl⟩ := Source.mem_framesFrom_drop h
  exact ⟨j, rfl⟩

theorem source_of_mem_frames {plan : Plan} {f : Frame} (h : f ∈ plan.frames) :
    f.source = plan.source := by
  obtain ⟨j, rfl⟩ := mem_frames h
  rfl

/-- The frame of a byte behind the beginning of a plan. -/
theorem frame_at {plan : Plan} {contents : Contents} {byte : Nat}
    (hcontents : plan.source.contents = some contents) (hfrom : plan.offset ≤ byte)
    (hinside : byte < contents.size) :
    ∃ f ∈ plan.frames, f.sector = plan.start + (byte - plan.offset) / 2352 ∧ f.byte ≤ byte ∧
      byte < f.byte + 4 := by
  refine ⟨⟨plan.source, plan.offset + 4 * ((byte - plan.offset) / 4),
    plan.start + (byte - plan.offset) / 4 / 588⟩, ?_, ?_, ?_, ?_⟩
  · refine List.mem_map.mpr ⟨(byte - plan.offset) / 4, List.mem_range.mpr ?_, rfl⟩
    rw [hcontents]
    show _ < divUp (contents.size - plan.offset) 4
    unfold divUp
    omega
  · rw [Nat.div_div_eq_div_mul]
  · show plan.offset + 4 * ((byte - plan.offset) / 4) ≤ byte
    omega
  · show byte < plan.offset + 4 * ((byte - plan.offset) / 4) + 4
    omega

/-- Frames before the end of the request are played for sectors before it. -/
theorem sector_lt_of_mem {plan : Plan} {k : Nat} {f : Frame} (hk : k ≤ 588 * plan.length)
    (h : f ∈ plan.frames.take k) : f.sector < plan.start + plan.length := by
  obtain ⟨j, hj, rfl⟩ := Source.mem_framesFrom_take h
  have hsector : j / 588 < plan.length := by omega
  exact Nat.add_lt_add_left hsector _

theorem le_sector_of_mem {plan : Plan} {k : Nat} {f : Frame} (hk : 588 * plan.length ≤ k)
    (h : f ∈ plan.frames.drop k) : plan.start + plan.length ≤ f.sector := by
  obtain ⟨j, hj, rfl⟩ := Source.mem_framesFrom_drop h
  have hsector : plan.length ≤ j / 588 := by omega
  exact Nat.add_le_add_left hsector _

/-- The sample frames of a plan in a file, 588 for each sector. -/
theorem total_segment {plan : Plan} {known : Nat} (h : plan.Stored known) (medium : Medium) :
    (plan.segment medium).total = 588 * plan.length := by
  obtain ⟨size, hformat⟩ := h.format
  have hrate : plan.source.rate = 75 * 588 := by
    unfold Source.rate
    rw [hformat]
    rfl
  show divUp (plan.source.rate * plan.length) 75 = _
  rw [hrate, Nat.mul_assoc]
  exact divUp_mul_left (by decide) _

theorem seek_stored {plan : Plan} {known : Nat} (h : plan.Stored known) (cursor : Nat) :
    plan.source.seek plan.offset cursor = (.ok (), plan.offset) := by
  obtain ⟨size, hformat⟩ := h.format
  obtain ⟨contents, hcontents⟩ := Option.isSome_iff_exists.mp h.bytes
  have hposition : plan.offset ≤ plan.source.lastPosition := by
    have hinside := h.inside
    rw [hcontents] at hinside
    unfold Source.lastPosition
    rw [hcontents]
    exact Nat.le_trans hinside (Nat.le_max_right _ _)
  unfold Source.seek
  rw [hformat]
  exact if_pos hposition

theorem after_of_enough {plan : Plan} (disc : Disc) (h : 588 * plan.length ≤ plan.frames.length) :
    plan.after disc = [] := by
  unfold after
  rw [if_neg]
  intro hruns
  exact absurd hruns.2 (Nat.not_lt.mpr h)

/-- The route behind a passage is that of the request that is left. -/
theorem after_of_next {plan next : Plan} {disc : Disc} (hruns : plan.RunsDry)
    (h : find disc true (plan.start + plan.done) (plan.length - plan.done) = .ok next) :
    plan.after disc = next.frames ++ next.after disc := by
  unfold after
  rw [if_pos hruns]
  exact Disc.route_of_plan h

theorem stop_of_next {plan next : Plan} {disc : Disc} (hruns : plan.RunsDry)
    (h : find disc true (plan.start + plan.done) (plan.length - plan.done) = .ok next) :
    next.start + next.length = plan.start + plan.length := by
  have hdone := done_le hruns
  rw [stop_of_find h]
  omega

end Plan

/-! ### Collecting -/

namespace Collected

variable {frames taken : List Frame} {stop n : Nat} {ns : List Nat} {samples : List Int16}

/-- Frames that are due come first. -/
theorem append (h : Collected frames stop ns samples) (htaken : ∀ f ∈ taken, f.sector < stop) :
    Collected (taken ++ frames) stop (n :: ns) (taken.flatMap Frame.sound ++ samples) := by
  obtain ⟨due, late, rest, rfl, rfl, hdue, hlate, m, hm, hmore⟩ := h
  refine ⟨taken ++ due, late, rest, ?_, ?_, fun f hf => ?_, hlate, m, List.mem_cons_of_mem _ hm,
    hmore⟩
  · simp only [List.append_assoc]
  · simp only [List.flatMap_append, List.append_assoc]
  · rcases List.mem_append.mp hf with hf | hf
    · exact htaken f hf
    · exact hdue f hf

/-- A pump that brings nothing changes nothing. -/
theorem cons (h : Collected frames stop ns samples) : Collected frames stop (n :: ns) samples := by
  obtain ⟨due, late, rest, hframes, hsamples, hdue, hlate, m, hm, hmore⟩ := h
  exact ⟨due, late, rest, hframes, hsamples, hdue, hlate, m, List.mem_cons_of_mem _ hm, hmore⟩

theorem nil (hn : 0 < n) : Collected [] stop (n :: ns) [] :=
  ⟨[], [], [], rfl, rfl, nofun, nofun, n, List.mem_cons_self, hn⟩

end Collected

end CompactDisc
