import CompactDisc.Proofs.Sound.Route

/-!
# CompactDisc.Proofs.Sound.Along

**Following a route.** Whatever the sizes of the pumps are, the channel collects of a request what is
on its route, from the front up to the end of the request but for less than one pump, and then it goes
off (`Deck.collects_of_play`).

Proof shape: `Deck.Along` says where a deck is on its route. A pull stops, goes on along the passage,
or begins the next one (`Along.pull_stops`, `Along.pull_goes_on`, `Along.pull_dry`); the pumps are
then an induction (`Along.collects`, `Along.ends`).
-/

namespace CompactDisc

namespace Deck

/-- Pumps one after another. -/
def pumps (d : Deck) (ns : List Nat) : Deck := ns.foldl (fun d n => (d.pump n).2) d

theorem pumps_of_off {d : Deck} (h : d.isOn = false) (ns : List Nat) : d.pumps ns = d := by
  induction ns with
  | nil => rfl
  | cons n ns ih =>
      show (d.pump n).2.pumps ns = d
      rw [pump_of_off h]
      exact ih

theorem pumps_cons_of_on {d : Deck} (h : d.isOn = true) (n : Nat) (ns : List Nat) :
    d.pumps (n :: ns) = (d.pull n).pumps ns := by
  show (d.pump n).2.pumps ns = _
  rw [pump_of_on h]

end Deck

/-! ### Places on a route -/

/-- The segment of a plan after so many frames. -/
def Plan.segmentAt (plan : Plan) (medium : Medium) (played : Nat) : Segment :=
  { plan.segment medium with played }

/-- A deck has played so many frames of a plan, and is not done. -/
structure Deck.Along (d : Deck) (medium : Medium) (plan : Plan) (k known : Nat) : Prop where
  plays : d.PlaysFile (plan.segmentAt medium k) plan.contents
  on : d.isOn = true
  cursor : d.cursors.get plan.source.id =
    plan.offset + min (k * 4) (plan.contents.size - plan.offset)
  heard : k ≤ plan.frames.length
  due : k < 588 * plan.length
  stored : plan.Stored known
  opened : known ≤ d.cursors.positions.length

namespace Deck.Along

variable {d : Deck} {medium : Medium} {plan : Plan} {k n known : Nat}

/-- The frames that a pull takes. -/
theorem samples_pull (h : d.Along medium plan k known) (hn : 0 < n) :
    (d.pull n).samples = d.samples ++
      ((plan.frames.drop k).take (min n (plan.frames.length - k))).flatMap Frame.sound := by
  have hk : k ≤ plan.contents.framesFrom plan.offset := by
    rw [← plan.length_frames]
    exact h.heard
  have hcursor : d.cursors.get (plan.segmentAt medium k).source.id = _ :=
    h.cursor
  rw [h.plays.samples_pull hn, hcursor, ← List.length_drop, ← List.take_eq_take_min]
  unfold Plan.frames
  rw [← Source.sound_framesFrom rfl hk]
  rfl

theorem taken (h : d.Along medium plan k known) (n : Nat) :
    (d.cursors.decode plan.source n).1.frames = min n (plan.frames.length - k) := by
  obtain ⟨size, hformat⟩ := h.stored.format
  have hk : k ≤ plan.contents.framesFrom plan.offset := by
    rw [← plan.length_frames]
    exact h.heard
  have hdecode := frames_decode d n (s := plan.segmentAt medium k) hformat h.plays.bytes
  rw [show (plan.segmentAt medium k).source.id = plan.source.id from rfl,
    h.cursor, Contents.framesFrom_add, Nat.min_eq_left hk, ← plan.length_frames] at hdecode
  exact hdecode

/-- A pull is answered with what is left of the passage, and goes on from there. -/
theorem pull_eq (h : d.Along medium plan k known) (hn : 0 < n) :
    d.pull n = (d.sounded (plan.segmentAt medium k) n).proceed
      (plan.segmentAt medium (k + min n (plan.frames.length - k)))
      (min n (plan.frames.length - k)) := by
  obtain ⟨c, hc⟩ := Option.isSome_iff_exists.mp h.plays.output
  rw [pull_of_active hn h.plays.playing h.plays.unpaused h.plays.segment (channel_of_channel? hc),
    ← h.taken n]
  rfl

/-- The last pull. -/
theorem pull_stops (h : d.Along medium plan k known) (hn : 0 < n)
    (hdone : 588 * plan.length ≤ k + min n (plan.frames.length - k)) :
    (d.pull n).isOn = false := by
  rw [h.pull_eq hn]
  unfold proceed
  rw [if_pos]
  · exact isOn_stop _
  · show (plan.segment medium).total ≤ _
    rw [Plan.total_segment h.stored]
    exact hdone

/-- A pull that brings frames, and not the last of the request. -/
theorem pull_goes_on (h : d.Along medium plan k known) (hn : 0 < n)
    (hmore : 0 < min n (plan.frames.length - k))
    (hdue : k + min n (plan.frames.length - k) < 588 * plan.length) :
    (d.pull n).Along medium plan (k + min n (plan.frames.length - k)) known := by
  obtain ⟨size, hformat⟩ := h.stored.format
  have hpull : d.pull n = d.sounded (plan.segmentAt medium k) n := by
    rw [h.pull_eq hn]
    unfold proceed
    rw [if_neg, if_pos hmore]
    show ¬ (plan.segment medium).total ≤ _
    rw [Plan.total_segment h.stored]
    exact Nat.not_le.mpr hdue
  have hplayer := player_sounded d (plan.segmentAt medium k) n
  have hknown := h.plays.known
  rw [hpull]
  refine ⟨⟨?_, ?_, ?_, ?_, h.plays.format, h.plays.bytes, ?_⟩, ?_, ?_, ?_, hdue, h.stored, ?_⟩
  · rw [hplayer]
    exact h.plays.playing
  · rw [hplayer]
    exact h.plays.unpaused
  · rw [hplayer, ← h.taken n]
    rfl
  · rw [channel?_sounded, Option.isSome_map]
    exact h.plays.output
  · rw [cursors_sounded]
    unfold Cursors.decode Cursors.use
    rw [Cursors.length_set]
    exact hknown
  · rw [isOn_sounded]
    exact h.on
  · have hbehind := get_decode d n (s := plan.segmentAt medium k) hformat h.plays.bytes
      hknown
    rw [show (plan.segmentAt medium k).source = plan.source from rfl,
      h.cursor] at hbehind
    rw [cursors_sounded]
    refine hbehind.trans ?_
    rw [plan.length_frames]
    unfold Contents.framesFrom divUp
    omega
  · have hheard := h.heard
    omega
  · rw [cursors_sounded]
    unfold Cursors.decode Cursors.use
    rw [Cursors.length_set]
    exact h.opened

end Deck.Along

namespace Deck

variable {d : Deck} {medium : Medium} {known : Nat}

/-- On a disc in known files, a request is refused for what is asked, or begins a passage. -/
theorem play_stored (start length : Nat) (houtput : d.channel?.isSome = true) (hdisc : medium.disc.Stored known)
    (hopened : known ≤ d.cursors.positions.length) :
    ((∃ e, Plan.find medium.disc true start length = .error e) ∧
      (∃ e, (d.play medium start length).1 = .error e) ∧
      (d.play medium start length).2 = d.stop) ∨
    ∃ plan, Plan.find medium.disc true start length = .ok plan ∧
      (d.play medium start length).2.Along medium plan 0 known := by
  obtain ⟨c, hc⟩ := Option.isSome_iff_exists.mp houtput
  have hchannel := channel_of_channel? hc
  cases hfind : Plan.find medium.disc true start length with
  | error e =>
      left
      rcases play_cases d medium start length with hok | hstop
      · obtain ⟨plan, hplan, -⟩ := play_ok_iff.mp hok
        rw [hchannel, hfind] at hplan
        cases hplan
      · exact ⟨⟨e, rfl⟩, hstop⟩
  | ok plan =>
      right
      have hstored := hdisc _ _ _ _ hfind
      have hseek := Plan.seek_stored hstored (d.cursors.get plan.source.id)
      have hknown : plan.source.id < d.cursors.positions.length :=
        Nat.lt_of_lt_of_le hstored.known hopened
      have hbegan : d.play medium start length = (.ok (), d.began medium plan) := by
        rw [← hchannel] at hfind
        exact play_of_plan hfind (congrArg Prod.fst hseek)
      have hcursors : (d.began medium plan).cursors =
          d.cursors.set plan.source.id plan.offset := by
        rw [cursors_began]
        exact congrArg (fun r => d.cursors.set plan.source.id r.2) hseek
      refine ⟨plan, rfl, ?_⟩
      rw [hbegan]
      refine ⟨⟨?_, ?_, ?_, ?_, hstored.format, ?_, ?_⟩, ?_, ?_, Nat.zero_le _, ?_, hstored, ?_⟩
      · rw [player_began]
      · rw [player_began]
      · rw [player_began]
        rfl
      · rw [channel?_began, Option.isSome_map]
        exact houtput
      · obtain ⟨contents, hcontents⟩ := Option.isSome_iff_exists.mp hstored.bytes
        show plan.source.contents = some (plan.source.contents.getD .empty)
        rw [hcontents, Option.getD_some]
      · rw [hcursors, Cursors.length_set]
        exact hknown
      · rw [isOn_began]
        exact houtput
      · rw [hcursors, Cursors.get_set_self _ hknown]
        simp
      · exact Nat.mul_pos (by decide) (Plan.length_pos_of_find hfind)
      · rw [hcursors, Cursors.length_set]
        exact hopened

namespace Along

variable {plan : Plan} {k n : Nat}

/-- A pull that brings nothing: the request ends with its passages, or the next one begins. -/
theorem pull_dry (h : d.Along medium plan k known) (hdisc : medium.disc.Stored known) (hn : 0 < n)
    (hdry : min n (plan.frames.length - k) = 0) :
    ((d.pull n).isOn = false ∧ plan.after medium.disc = []) ∨
    ∃ next, Plan.find medium.disc true (plan.start + plan.done) (plan.length - plan.done) =
        .ok next ∧ plan.RunsDry ∧ (d.pull n).Along medium next 0 known := by
  -- every frame of the passage has been heard, so its sectors can be counted
  have hk : k = plan.frames.length := by
    have hheard := h.heard
    omega
  have hdue : plan.frames.length < 588 * plan.length := hk ▸ h.due
  have hcompleted : (plan.segmentAt medium k).completed = plan.done := by
    show divUp (k * plan.length) (plan.segment medium).total = divUp plan.frames.length 588
    rw [Plan.total_segment h.stored, hk]
    exact divUp_mul_right (by omega) (by decide) _
  have hnext : (plan.segmentAt medium k).next = plan.start + plan.done := by
    have hnumbered := h.stored.numbered
    rw [← hcompleted] at hnumbered ⊢
    exact Segment.next_of_lt hnumbered
  have hsounded : (d.sounded (plan.segmentAt medium k) n).channel?.isSome = true := by
    rw [channel?_sounded, Option.isSome_map]
    exact h.plays.output
  have hopened : known ≤
      (d.sounded (plan.segmentAt medium k) n).cursors.positions.length := by
    rw [cursors_sounded]
    unfold Cursors.decode Cursors.use
    rw [Cursors.length_set]
    exact h.opened
  rw [h.pull_eq hn, hdry]
  unfold proceed
  rw [if_neg, if_neg (Nat.lt_irrefl 0), Nat.add_zero, hnext, hcompleted]
  · -- a passage without a frame is not followed by another
    by_cases hnone : plan.done = 0
    · left
      rw [if_pos hnone]
      refine ⟨isOn_stop _, ?_⟩
      unfold Plan.after
      rw [if_neg]
      intro hruns
      exact absurd hnone (Nat.ne_of_gt hruns.1)
    · have hruns : plan.RunsDry := ⟨Nat.pos_of_ne_zero hnone, hdue⟩
      rw [if_neg hnone]
      rcases play_stored (plan.start + plan.done) (plan.length - plan.done) hsounded hdisc hopened
        with ⟨⟨e, hfind⟩, -, hstop⟩ | ⟨next, hfind, halong⟩
      · left
        refine ⟨?_, ?_⟩
        · exact (congrArg isOn hstop).trans (isOn_stop _)
        · unfold Plan.after
          rw [if_pos hruns]
          exact Disc.route_of_error hfind
      · exact Or.inr ⟨next, hfind, hruns, halong⟩
  · show ¬ (plan.segment medium).total ≤ k + 0
    rw [Plan.total_segment h.stored, Nat.add_zero]
    exact Nat.not_le.mpr h.due

/-- **What a pull does** to a deck on its route: it ends the request, goes on along the passage, or
finds the file at its end. -/
theorem pull_cases (h : d.Along medium plan k known) (hdisc : medium.disc.Stored known)
    (hn : 0 < n) :
    ((d.pull n).isOn = false ∧ 588 * plan.length ≤ k + min n (plan.frames.length - k)) ∨
    (0 < min n (plan.frames.length - k) ∧
      k + min n (plan.frames.length - k) < 588 * plan.length ∧
      (d.pull n).Along medium plan (k + min n (plan.frames.length - k)) known) ∨
    plan.frames.length ≤ k ∧
      (((d.pull n).isOn = false ∧ plan.after medium.disc = []) ∨
      ∃ next, Plan.find medium.disc true (plan.start + plan.done) (plan.length - plan.done) =
          .ok next ∧ plan.RunsDry ∧ (d.pull n).Along medium next 0 known) := by
  rcases Nat.lt_or_ge (k + min n (plan.frames.length - k)) (588 * plan.length) with hdue | hdone
  · right
    rcases Nat.eq_zero_or_pos (min n (plan.frames.length - k)) with hdry | hmore
    · exact Or.inr ⟨by omega, h.pull_dry hdisc hn hdry⟩
    · exact Or.inl ⟨hmore, hdue, h.pull_goes_on hn hmore hdue⟩
  · exact Or.inl ⟨h.pull_stops hn hdone, hdone⟩

end Along

end Deck

/-! ### Pumps -/

namespace Deck.Along

variable {d : Deck} {medium : Medium} {plan : Plan} {k n known : Nat} {ns : List Nat}

/-- The pull that ends a request takes all frames that are due, and fewer than it asked for that are
not. -/
theorem collected_last (h : d.Along medium plan k known) (disc : Disc) (ns : List Nat)
    (hdone : 588 * plan.length ≤ k + min n (plan.frames.length - k)) :
    Collected (plan.frames.drop k ++ plan.after disc) (plan.start + plan.length) (n :: ns)
      (((plan.frames.drop k).take (min n (plan.frames.length - k))).flatMap Frame.sound) := by
  have hheard := h.heard
  -- `last` frames are due, and the pull takes `more` that are not
  obtain ⟨last, hlast⟩ := Nat.exists_eq_add_of_le (Nat.le_of_lt h.due)
  obtain ⟨more, hmore⟩ : ∃ more, min n (plan.frames.length - k) = last + more :=
    ⟨_, (Nat.add_sub_of_le (by omega)).symm⟩
  have hlate : (plan.frames.drop k).drop last = plan.frames.drop (588 * plan.length) := by
    rw [List.drop_drop, hlast]
  refine ⟨(plan.frames.drop k).take last, ((plan.frames.drop k).drop last).take more,
    ((plan.frames.drop k).drop last).drop more, ?_, ?_, fun f hf => ?_, fun f hf => ?_, n,
    List.mem_cons_self, ?_⟩
  · rw [plan.after_of_enough disc (by omega), List.append_nil, List.append_assoc,
      List.take_append_drop, List.take_append_drop]
  · rw [hmore, List.take_add]
  · rw [List.take_drop, ← hlast] at hf
    exact plan.sector_lt_of_mem (Nat.le_refl _) (List.mem_of_mem_drop hf)
  · rw [List.take_append_drop, hlate] at hf
    exact plan.le_sector_of_mem (Nat.le_refl _) hf
  · have hlength : (((plan.frames.drop k).drop last).take more).length ≤ more :=
      List.length_take_le _ _
    have hdue := h.due
    omega

/-- **What is collected on the rest of a route**, once the output is off. -/
theorem collects (h : d.Along medium plan k known) (hdisc : medium.disc.Stored known)
    (hns : ∀ n ∈ ns, 0 < n) (hoff : (d.pumps ns).isOn = false) :
    ∃ samples, (d.pumps ns).samples = d.samples ++ samples ∧
      Collected (plan.frames.drop k ++ plan.after medium.disc) (plan.start + plan.length) ns
        samples := by
  -- the place on the route moves with each pump, while the end of the request stays
  induction ns generalizing d plan k with
  | nil =>
      have hon : d.isOn = true := h.on
      have hoff' : d.isOn = false := hoff
      rw [hon] at hoff'
      cases hoff'
  | cons n ns ih =>
      have hn := hns n List.mem_cons_self
      have hrest : ∀ n ∈ ns, 0 < n := fun m hm => hns m (List.mem_cons_of_mem _ hm)
      have hsamples := h.samples_pull hn
      rw [pumps_cons_of_on h.on] at hoff ⊢
      rcases h.pull_cases hdisc hn with ⟨hstop, hdone⟩ | ⟨hmore, hdue, hnext⟩ | ⟨hdry, hnext⟩
      · rw [pumps_of_off hstop]
        exact ⟨_, hsamples, h.collected_last _ _ hdone⟩
      · obtain ⟨samples, hlater, hcollected⟩ := ih hnext hrest hoff
        have htaken : ∀ f ∈ (plan.frames.drop k).take (min n (plan.frames.length - k)),
            f.sector < plan.start + plan.length := by
          intro f hf
          rw [List.take_drop] at hf
          exact plan.sector_lt_of_mem (Nat.le_of_lt hdue) (List.mem_of_mem_drop hf)
        rw [← List.drop_drop] at hcollected
        have hall := hcollected.append (n := n) htaken
        rw [← List.append_assoc, List.take_append_drop] at hall
        refine ⟨_, ?_, hall⟩
        rw [hlater, hsamples, List.append_assoc]
      · -- nothing is left of the passage
        rw [List.drop_of_length_le hdry, List.take_nil, List.flatMap_nil, List.append_nil] at hsamples
        rw [List.drop_of_length_le hdry, List.nil_append]
        rcases hnext with ⟨hstop, hafter⟩ | ⟨next, hfind, hruns, hnext⟩
        · rw [pumps_of_off hstop, hafter]
          exact ⟨[], by rw [hsamples, List.append_nil], .nil hn⟩
        · obtain ⟨samples, hlater, hcollected⟩ := ih hnext hrest hoff
          rw [Plan.after_of_next hruns hfind, ← Plan.stop_of_next hruns hfind]
          refine ⟨samples, by rw [hlater, hsamples], ?_⟩
          exact hcollected.cons

/-- **A request ends**, after no more pumps than it has frames and sectors. -/
theorem ends (h : d.Along medium plan k known) (hdisc : medium.disc.Stored known)
    (hns : ∀ n ∈ ns, 0 < n)
    (hmany : (plan.frames.drop k ++ plan.after medium.disc).length + plan.length ≤ ns.length) :
    (d.pumps ns).isOn = false := by
  -- a pump takes a frame off the route, or its passage takes a sector off the request
  induction ns generalizing d plan k with
  | nil =>
      have hdue := h.due
      rw [List.length_nil] at hmany
      omega
  | cons n ns ih =>
      have hn := hns n List.mem_cons_self
      have hrest : ∀ n ∈ ns, 0 < n := fun m hm => hns m (List.mem_cons_of_mem _ hm)
      rw [List.length_append, List.length_drop, List.length_cons] at hmany
      rw [pumps_cons_of_on h.on]
      rcases h.pull_cases hdisc hn with ⟨hstop, -⟩ | ⟨hmore, -, hnext⟩ | ⟨hdry, hnext⟩
      · rw [pumps_of_off hstop, hstop]
      · refine ih hnext hrest ?_
        rw [List.length_append, List.length_drop]
        omega
      · rcases hnext with ⟨hstop, -⟩ | ⟨next, hfind, hruns, hnext⟩
        · rw [pumps_of_off hstop, hstop]
        · refine ih hnext hrest ?_
          have hshorter := Plan.length_le_of_find hfind
          have hpos := hruns.1
          have hdone := Plan.done_le hruns
          rw [Plan.after_of_next hruns hfind] at hmany
          rw [List.drop_zero]
          omega

end Deck.Along

/-- **What a channel collects of a request** on a disc in known files: what its route holds up to the
end of the request. The output goes off after no more pumps than the route has frames and the request
has sectors. -/
theorem Deck.collects_of_play {d : Deck} {medium : Medium} {start length known : Nat} {ns : List Nat}
    (houtput : d.channel?.isSome = true) (hdisc : medium.disc.Stored known)
    (hopened : known ≤ d.cursors.positions.length)
    (hok : (d.play medium start length).1 = .ok ()) (hns : ∀ n ∈ ns, 0 < n) :
    let begun := (d.play medium start length).2
    ((begun.pumps ns).isOn = false → ∃ samples, (begun.pumps ns).samples = d.samples ++ samples ∧
      Collected (medium.disc.route start length) (start + length) ns samples) ∧
    ((medium.disc.route start length).length + length ≤ ns.length →
      (begun.pumps ns).isOn = false) := by
  intro begun
  rcases play_stored start length houtput hdisc hopened with ⟨-, ⟨e, he⟩, -⟩ | ⟨plan, hfind, halong⟩
  · rw [hok] at he
    cases he
  · rw [Disc.route_of_plan hfind, ← Plan.stop_of_find hfind]
    refine ⟨fun hoff => ?_, fun hmany => halong.ends hdisc hns ?_⟩
    · obtain ⟨samples, hsamples, hcollected⟩ := halong.collects hdisc hns hoff
      rw [samples_play] at hsamples
      exact ⟨samples, hsamples, hcollected⟩
    · have hlength := Plan.length_le_of_find hfind
      rw [List.drop_zero]
      omega

end CompactDisc
