import CompactDisc.Sound.Player

/-!
# CompactDisc.Proofs.Sound.Effect

**What an operation of the player does**, read off once. A deck is looked at through three views:
its player, its cursors, and `Deck.channel?`. Each operation has one equation for each view, and what
follows never unfolds an operation again.

* A request either fails and leaves nothing but a stopped player (`Deck.play_of_error`), or begins
  the segment of its plan (`Deck.play_ok_iff`, `Deck.began`).
* A pull that does something decodes, forwards and counts (`Deck.sounded`), and then goes on from
  what has been counted (`Deck.pull_of_active`).
-/

namespace CompactDisc

/-! ### Quotients rounded up -/

theorem divUp_le_iff {n d k : Nat} (hd : 0 < d) : divUp n d ≤ k ↔ n ≤ k * d := by
  unfold divUp
  rw [← Nat.lt_succ_iff, Nat.div_lt_iff_lt_mul hd, Nat.succ_mul]
  omega

theorem divUp_pos_iff {n d : Nat} (hd : 0 < d) : 0 < divUp n d ↔ 0 < n := by
  have h := divUp_le_iff (n := n) (k := 0) hd
  omega

theorem le_divUp_mul {d : Nat} (hd : 0 < d) (n : Nat) : n ≤ divUp n d * d :=
  (divUp_le_iff hd).mp (Nat.le_refl _)

/-- Rounding up adds less than one. -/
theorem divUp_mul_lt {d : Nat} (hd : 0 < d) (n : Nat) : divUp n d * d < n + d := by
  have hle : divUp n d * d ≤ n + d - 1 := Nat.div_mul_le_self _ _
  omega

theorem divUp_mono {m n : Nat} (h : m ≤ n) (d : Nat) : divUp m d ≤ divUp n d :=
  Nat.div_le_div_right (by omega)

/-- Nothing is lost by rounding where there is nothing to round. -/
theorem divUp_mul_left {d : Nat} (hd : 0 < d) (n : Nat) : divUp (d * n) d = n := by
  refine Nat.le_antisymm ((divUp_le_iff hd).mpr (Nat.le_of_eq (Nat.mul_comm d n))) ?_
  unfold divUp
  rw [Nat.le_div_iff_mul_le hd, Nat.mul_comm n d]
  omega

/-- A common factor does not matter. -/
theorem divUp_mul_right {d k : Nat} (hk : 0 < k) (hd : 0 < d) (n : Nat) :
    divUp (n * k) (d * k) = divUp n d := by
  have hle : ∀ m, divUp (n * k) (d * k) ≤ m ↔ divUp n d ≤ m := by
    intro m
    rw [divUp_le_iff (Nat.mul_pos hd hk), divUp_le_iff hd, ← Nat.mul_assoc]
    exact Nat.mul_le_mul_right_iff hk
  exact Nat.le_antisymm ((hle _).mpr (Nat.le_refl _)) ((hle _).mp (Nat.le_refl _))

/-- Rounding twice is rounding once. -/
theorem divUp_divUp {d e : Nat} (hd : 0 < d) (he : 0 < e) (n : Nat) :
    divUp (divUp n d) e = divUp n (d * e) := by
  have hle : ∀ m, divUp (divUp n d) e ≤ m ↔ divUp n (d * e) ≤ m := by
    intro m
    rw [divUp_le_iff he, divUp_le_iff hd, divUp_le_iff (Nat.mul_pos hd he), Nat.mul_assoc,
      Nat.mul_comm e d]
  exact Nat.le_antisymm ((hle _).mpr (Nat.le_refl _)) ((hle _).mp (Nat.le_refl _))

/-- Frames that take the time of `k` sectors at most are counted as so many at most, whatever share they
are of. -/
theorem divUp_share_le {n k length rate : Nat} (hrate : 0 < rate) (hlength : 0 < length)
    (h : n * 75 ≤ k * rate) : divUp (n * length) (divUp (rate * length) 75) ≤ k := by
  rw [divUp_le_iff ((divUp_pos_iff (by decide)).mpr (Nat.mul_pos hrate hlength))]
  refine Nat.le_of_mul_le_mul_right ?_ (by decide : 0 < 75)
  calc n * length * 75
      = n * 75 * length := Nat.mul_right_comm _ _ _
    _ ≤ k * rate * length := Nat.mul_le_mul_right _ h
    _ = k * (rate * length) := Nat.mul_assoc _ _ _
    _ ≤ k * (divUp (rate * length) 75 * 75) :=
        Nat.mul_le_mul_left _ (le_divUp_mul (by decide) _)
    _ = k * divUp (rate * length) 75 * 75 := (Nat.mul_assoc _ _ _).symm

/-! ### Requests -/

namespace Plan

/-- The segment of a plan, before anything of it has been played. -/
def segment (plan : Plan) (medium : Medium) : Segment where
  medium := medium
  source := plan.source
  start := plan.start
  length := plan.length
  total := Segment.framesOf plan.source.rate plan.length
  played := 0

/-- **What a request plays**: the track that owns its first sector, if this is a track with sound and
a source, and the request reaches it. -/
theorem find_ok_iff {disc : Disc} {hasOutput : Bool} {start length : Nat} {plan : Plan} :
    find disc hasOutput start length = .ok plan ↔
      0 < length ∧ hasOutput = true ∧
      ∃ t s, disc.track? start = some t ∧ t.isData = false ∧ t.source = some s ∧
        t.start < start + length ∧
        plan = {
          track := t
          source := s
          start := max start t.start
          length := length - (t.start - start)
          offset := t.skip + min (start - t.start) (t.length - 1) * t.sectorSize } := by
  unfold find
  by_cases hlength : length = 0
  · rw [if_pos hlength]
    exact ⟨nofun, fun h => absurd hlength (Nat.ne_of_gt h.1)⟩
  rw [if_neg hlength]
  cases howner : disc.track? start with
  | none => exact ⟨nofun, fun ⟨_, _, t, s, ht, _⟩ => nomatch ht⟩
  | some t =>
      cases hdata : t.isData with
      | true =>
          simp only [hdata]
          refine ⟨nofun, fun ⟨_, _, t', s, ht, hsound, _⟩ => ?_⟩
          cases ht
          rw [hdata] at hsound
          cases hsound
      | false =>
          cases hs : t.source with
          | none =>
              simp only [hdata, hs]
              refine ⟨nofun, fun ⟨_, _, t', s, ht, _, hs', _⟩ => ?_⟩
              cases ht
              rw [hs] at hs'
              cases hs'
          | some s =>
              cases hasOutput with
              | false =>
                  simp only [hdata, hs]
                  exact ⟨nofun, fun h => nomatch h.2.1⟩
              | true =>
                  simp only [hdata, hs]
                  by_cases hgap : 0 < t.start - start ∧ length ≤ t.start - start
                  · rw [if_pos hgap]
                    refine ⟨nofun, fun ⟨_, _, t', s', ht, _, _, hreach, _⟩ => ?_⟩
                    cases ht
                    omega
                  · rw [if_neg hgap]
                    constructor
                    · intro h
                      cases h
                      exact ⟨by omega, trivial, t, s, rfl, hdata, hs, by omega, rfl⟩
                    · intro ⟨_, _, t', s', ht, _, hs', _, hplan⟩
                      cases ht
                      rw [hs] at hs'
                      cases hs'
                      rw [hplan]
                      rfl

variable {disc : Disc} {hasOutput : Bool} {start length : Nat} {plan : Plan}

/-- A request keeps its end. -/
theorem stop_of_find (h : find disc hasOutput start length = .ok plan) :
    plan.start + plan.length = start + length := by
  obtain ⟨-, -, t, s, -, -, -, hreach, rfl⟩ := find_ok_iff.mp h
  show max start t.start + (length - (t.start - start)) = start + length
  omega

theorem length_pos_of_find (h : find disc hasOutput start length = .ok plan) : 0 < plan.length := by
  obtain ⟨hpos, -, t, s, -, -, -, hreach, rfl⟩ := find_ok_iff.mp h
  show 0 < length - (t.start - start)
  omega

theorem length_le_of_find (h : find disc hasOutput start length = .ok plan) :
    plan.length ≤ length := by
  obtain ⟨-, -, t, s, -, -, -, -, rfl⟩ := find_ok_iff.mp h
  exact Nat.sub_le _ _

end Plan

namespace Deck

/-! ### The channel -/

@[simp] theorem player_onChannel (d : Deck) (f : Channel → Channel) :
    (d.onChannel f).player = d.player := by
  unfold onChannel
  split <;> rfl

@[simp] theorem cursors_onChannel (d : Deck) (f : Channel → Channel) :
    (d.onChannel f).cursors = d.cursors := by
  unfold onChannel
  split <;> rfl

@[simp] theorem channel?_onChannel (d : Deck) (f : Channel → Channel) :
    (d.onChannel f).channel? = d.channel?.map f := by
  unfold onChannel channel?
  cases hid : d.player.channel with
  | none => simp [hid]
  | some id => simp [hid]

/-- What is done to the channel depends on the player and the mixer alone. -/
theorem mixer_onChannel_congr {d e : Deck} (hplayer : d.player = e.player)
    (hmixer : d.mixer = e.mixer) (f : Channel → Channel) :
    (d.onChannel f).mixer = (e.onChannel f).mixer := by
  unfold onChannel
  rw [hplayer]
  cases e.player.channel with
  | none => exact hmixer
  | some id => exact congrArg (·.modify id f) hmixer

/-! ### Stopping, pausing and volume -/

@[simp] theorem player_stop (d : Deck) :
    d.stop.player = { d.player with playing := false, paused := false } := player_onChannel _ _

@[simp] theorem cursors_stop (d : Deck) : d.stop.cursors = d.cursors := cursors_onChannel _ _

@[simp] theorem channel?_stop (d : Deck) :
    d.stop.channel? = d.channel?.map fun c => { c with enabled := false } :=
  channel?_onChannel _ _

@[simp] theorem player_pause (d : Deck) (resume : Bool) :
    (d.pause resume).player = { d.player with paused := !resume } := player_onChannel _ _

@[simp] theorem channel?_pause (d : Deck) (resume : Bool) :
    (d.pause resume).channel? = d.channel?.map fun c => { c with enabled := resume } :=
  channel?_onChannel _ _

@[simp] theorem player_control (d : Deck) (volume map : Sides UInt8) :
    (d.control volume map).player = d.player := player_onChannel _ _

@[simp] theorem channel?_control (d : Deck) (volume map : Sides UInt8) :
    (d.control volume map).channel? = d.channel?.map fun c => { c with volume, map } :=
  channel?_onChannel _ _

/-! ### Playing -/

/-- The deck on which the segment of a plan has just begun. -/
def began (d : Deck) (medium : Medium) (plan : Plan) : Deck :=
  { d with
    cursors := (d.cursors.seek plan.source plan.offset).2
    player := { d.player with
      segment := some (plan.segment medium), playing := true, paused := false } }.onChannel
    fun c => { c with rate := plan.source.rate, enabled := true }

@[simp] theorem player_began (d : Deck) (medium : Medium) (plan : Plan) :
    (d.began medium plan).player =
      { d.player with segment := some (plan.segment medium), playing := true, paused := false } :=
  player_onChannel _ _

@[simp] theorem cursors_began (d : Deck) (medium : Medium) (plan : Plan) :
    (d.began medium plan).cursors = (d.cursors.seek plan.source plan.offset).2 :=
  cursors_onChannel _ _

@[simp] theorem channel?_began (d : Deck) (medium : Medium) (plan : Plan) :
    (d.began medium plan).channel? =
      d.channel?.map fun c => { c with rate := plan.source.rate, enabled := true } :=
  channel?_onChannel _ _

variable {d : Deck} {medium : Medium} {start length : Nat}

theorem play_of_plan {plan : Plan}
    (hfind : Plan.find medium.disc d.player.channel.isSome start length = .ok plan)
    (hseek : (d.cursors.seek plan.source plan.offset).1 = .ok ()) :
    d.play medium start length = (.ok (), d.began medium plan) := by
  unfold play beginSegment
  rw [hfind]
  dsimp only
  rcases hresult : d.cursors.seek plan.source plan.offset with ⟨result, cursors⟩
  rw [hresult] at hseek
  cases hseek
  unfold began
  rw [hresult]
  rfl

/-- A source that cannot be positioned keeps its cursor. -/
theorem cursors_of_seek_error {c : Cursors} {s : Source} {offset : Nat} {e : SourceError}
    (h : (c.seek s offset).1 = .error e) : (c.seek s offset).2 = c := by
  show c.set s.id (s.seek offset (c.get s.id)).2 = c
  rw [Source.seek_error h, Cursors.set_get]

/-- A request that fails stops the player and does nothing else. -/
theorem play_of_error {e : PlayerError} (h : (d.play medium start length).1 = .error e) :
    (d.play medium start length).2 = d.stop := by
  unfold play beginSegment at h ⊢
  cases hfind : Plan.find medium.disc d.player.channel.isSome start length with
  | error e' => rfl
  | ok plan =>
      simp only [hfind] at h ⊢
      rcases hresult : d.cursors.seek plan.source plan.offset with ⟨e' | ⟨⟩, cursors⟩
      · have hkept := cursors_of_seek_error (congrArg Prod.fst hresult)
        rw [hresult] at hkept
        cases hkept
        rfl
      · rw [hresult] at h
        cases h

/-- **When a request is accepted**, and what comes of it. -/
theorem play_ok_iff :
    (d.play medium start length).1 = .ok () ↔
      ∃ plan, Plan.find medium.disc d.player.channel.isSome start length = .ok plan ∧
        (d.cursors.seek plan.source plan.offset).1 = .ok () ∧
        (d.play medium start length).2 = d.began medium plan := by
  constructor
  · intro h
    cases hfind : Plan.find medium.disc d.player.channel.isSome start length with
    | error e =>
        unfold play beginSegment at h
        rw [hfind] at h
        cases h
    | ok plan =>
        cases hseek : (d.cursors.seek plan.source plan.offset).1 with
        | error e =>
            unfold play beginSegment at h
            rw [hfind] at h
            dsimp only at h
            rcases hresult : d.cursors.seek plan.source plan.offset with ⟨e' | ⟨⟩, cursors⟩
            · rw [hresult] at h
              cases h
            · rw [hresult] at hseek
              cases hseek
        | ok =>
            exact ⟨plan, rfl, hseek, congrArg Prod.snd (play_of_plan hfind hseek)⟩
  · intro ⟨plan, hfind, hseek, _⟩
    rw [play_of_plan hfind hseek]

/-- A request is accepted, or it leaves a stopped player. -/
theorem play_cases (d : Deck) (medium : Medium) (start length : Nat) :
    (d.play medium start length).1 = .ok () ∨
      (∃ e, (d.play medium start length).1 = .error e) ∧
        (d.play medium start length).2 = d.stop := by
  cases h : (d.play medium start length).1 with
  | ok => exact Or.inl rfl
  | error e => exact Or.inr ⟨⟨e, rfl⟩, play_of_error h⟩

/-! ### Pulling -/

/-- The deck after `frames` frames were asked of the source, before it is decided how to go on. -/
def sounded (d : Deck) (s : Segment) (frames : Nat) : Deck :=
  { d with
    cursors := (d.cursors.decode s.source frames).2
    player := { d.player with
      segment := some { s with
        played := s.played + (d.cursors.decode s.source frames).1.frames } } }.onChannel
    fun c => c.forward s.source.channels s.source.byteOrder
      (d.cursors.decode s.source frames).1.frames
      ((d.cursors.decode s.source frames).1.bytes.take
        ((d.cursors.decode s.source frames).1.frames * s.source.bytesPerFrame))

@[simp] theorem player_sounded (d : Deck) (s : Segment) (frames : Nat) :
    (d.sounded s frames).player = { d.player with
      segment := some { s with
        played := s.played + (d.cursors.decode s.source frames).1.frames } } :=
  player_onChannel _ _

@[simp] theorem cursors_sounded (d : Deck) (s : Segment) (frames : Nat) :
    (d.sounded s frames).cursors = (d.cursors.decode s.source frames).2 :=
  cursors_onChannel _ _

@[simp] theorem channel?_sounded (d : Deck) (s : Segment) (frames : Nat) :
    (d.sounded s frames).channel? = d.channel?.map fun c =>
      c.forward s.source.channels s.source.byteOrder
        (d.cursors.decode s.source frames).1.frames
        ((d.cursors.decode s.source frames).1.bytes.take
          ((d.cursors.decode s.source frames).1.frames * s.source.bytesPerFrame)) :=
  channel?_onChannel _ _

/-- A pull that is answered. -/
theorem pull_of_active {s : Segment} {frames : Nat} (hframes : 0 < frames)
    (hplaying : d.player.playing = true) (hpaused : d.player.paused = false)
    (hsegment : d.player.segment = some s) (hchannel : d.player.channel.isSome = true) :
    d.pull frames = (d.sounded s frames).proceed
      { s with played := s.played + (d.cursors.decode s.source frames).1.frames }
      (d.cursors.decode s.source frames).1.frames := by
  obtain ⟨id, hid⟩ := Option.isSome_iff_exists.mp hchannel
  unfold pull
  rw [if_neg (by simp [hplaying, hpaused, Nat.ne_of_gt hframes]), hsegment, hid]
  unfold sounded
  rfl

/-- **What a pull can do**: nothing, or what `pull_of_active` says. -/
theorem pull_cases (d : Deck) (frames : Nat) :
    d.pull frames = d ∨ ∃ s, 0 < frames ∧ d.player.playing = true ∧ d.player.paused = false ∧
      d.player.segment = some s ∧ d.player.channel.isSome = true := by
  by_cases hidle : frames = 0 ∨ d.player.playing = false ∨ d.player.paused = true
  · left
    unfold pull
    rw [if_pos hidle]
  · cases hsegment : d.player.segment with
    | none =>
        left
        unfold pull
        rw [if_neg hidle, hsegment]
    | some s =>
        cases hchannel : d.player.channel with
        | none =>
            left
            unfold pull
            rw [if_neg hidle, hsegment, hchannel]
        | some id =>
            right
            simp only [not_or, Bool.not_eq_false, Bool.not_eq_true] at hidle
            exact ⟨s, Nat.pos_of_ne_zero hidle.1, hidle.2.1, hidle.2.2, rfl, rfl⟩

/-- The channel that a player has is that of the mixer. -/
theorem channel_of_channel? {c : Channel} (h : d.channel? = some c) :
    d.player.channel.isSome = true := by
  unfold channel? at h
  cases hid : d.player.channel with
  | none =>
      rw [hid] at h
      cases h
  | some id => rfl

/-! ### The output -/

/-- What the channel has collected. -/
def samples (d : Deck) : List Int16 := d.channel?.elim [] (·.samples.toList)

/-- Whether the output is enabled. -/
def isOn (d : Deck) : Bool := d.channel?.any (·.enabled)

/-- A change that is no more than one of rate and switch collects nothing. -/
theorem samples_eq_of_channel? {e : Deck} {f : Channel → Channel}
    (h : e.channel? = d.channel?.map f) (hf : ∀ c, (f c).samples = c.samples) :
    e.samples = d.samples := by
  unfold samples
  rw [h]
  cases d.channel? with
  | none => rfl
  | some c => exact congrArg Array.toList (hf c)

@[simp] theorem samples_stop (d : Deck) : d.stop.samples = d.samples :=
  samples_eq_of_channel? (channel?_stop d) fun _ => rfl

@[simp] theorem samples_play (d : Deck) (medium : Medium) (start length : Nat) :
    (d.play medium start length).2.samples = d.samples := by
  rcases play_cases d medium start length with hok | ⟨-, hstop⟩
  · obtain ⟨plan, -, -, hbegan⟩ := play_ok_iff.mp hok
    rw [hbegan]
    exact samples_eq_of_channel? (channel?_began d medium plan) fun _ => rfl
  · rw [hstop, samples_stop]

@[simp] theorem samples_proceed (d : Deck) (s : Segment) (n : Nat) :
    (d.proceed s n).samples = d.samples := by
  unfold proceed
  split
  · exact samples_stop d
  · split
    · rfl
    · split
      · exact samples_stop d
      · exact samples_play d _ _ _

@[simp] theorem isOn_stop (d : Deck) : d.stop.isOn = false := by
  unfold isOn
  rw [channel?_stop]
  cases d.channel? with
  | none => rfl
  | some c => rfl

theorem isOn_began (d : Deck) (medium : Medium) (plan : Plan) :
    (d.began medium plan).isOn = d.channel?.isSome := by
  unfold isOn
  rw [channel?_began]
  cases d.channel? with
  | none => rfl
  | some c => rfl

@[simp] theorem isOn_sounded (d : Deck) (s : Segment) (frames : Nat) :
    (d.sounded s frames).isOn = d.isOn := by
  unfold isOn
  rw [channel?_sounded]
  cases d.channel? with
  | none => rfl
  | some c =>
      show (Channel.forward c _ _ _ _).enabled = c.enabled
      unfold Channel.forward
      split
      · rfl
      · rfl

theorem pump_of_on (h : d.isOn = true) (frames : Nat) : d.pump frames = (true, d.pull frames) := by
  unfold isOn at h
  unfold pump
  rw [if_pos h]

theorem pump_of_off (h : d.isOn = false) (frames : Nat) : d.pump frames = (false, d) := by
  unfold isOn at h
  unfold pump
  rw [h]
  rfl

end Deck

end CompactDisc
