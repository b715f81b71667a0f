import CompactDisc.Proofs.Letters.Drives

/-!
# CompactDisc.Proofs.Letters.Lifecycle

**The player of the drives**: it is there while something is mounted, with the only channel of the mixer,
all mounted drives have it, and it holds nothing but the disc of one of them.

The registry lets go of its player only when the last drive has gone; so no drive is left with a player
that is not given any more (`Registry.Manned.releasePlayer`).

A mount brings the player before it is known whether the image can be loaded, and an unmount takes the
disc out of its drive before the player lets go of it. In between there may be a player and nothing
mounted; such a registry is `Registry.Manned`, and `Registry.releasePlayer` puts it in order.

Proof shape: the player is looked at through its deck, which has the only channel and holds a mounted
disc (`Deck.Sole`). An operation on the deck leaves that so by `Deck.Keeps` and `Deck.Holds`; a mount and
an unmount change what is mounted, and lead over a manned registry back to a settled one.
-/

namespace CompactDisc

namespace Registry

variable {r : Registry} {n : Nat}

/-- There is a player, whether or not anything is mounted. -/
structure Manned (r : Registry) : Prop extends Filed r where
  player : r.player.isSome = true
  sole : r.deck.Sole r.Mounts

/-- There is a player exactly if something is mounted. -/
structure Settled (r : Registry) : Prop extends Filed r where
  player_iff : r.player.isSome = true ↔ 0 < r.mounted
  sole : r.player.isSome = true → r.deck.Sole r.Mounts
  silent : r.player = none → r.mixer.connected = []

/-! ### Between manned and settled -/

/-- A mounted drive has a player. -/
theorem Settled.isSome_player (h : r.Settled) {drive : Drive} (hat : r.drive? n = some drive) :
    r.player.isSome = true :=
  h.player_iff.mpr (mounted_pos_iff.mpr ⟨n, drive, hat⟩)

theorem Settled.mounted_of_no_player (h : r.Settled) (hnone : r.player = none) : r.mounted = 0 := by
  refine Nat.eq_zero_of_not_pos fun hmounted => ?_
  have hsome := h.player_iff.mpr hmounted
  rw [hnone] at hsome
  cases hsome

/-- The deck of a settled registry, which brings a player where there is none. -/
theorem Settled.sole_deck (h : r.Settled) : r.deck.Sole r.Mounts := by
  cases hplayer : r.player with
  | some p => exact h.sole (by rw [hplayer]; rfl)
  | none =>
      rw [deck_of_unshared (h.shared_of_no_player hplayer)]
      refine ⟨⟨_, _, rfl, ?_, Mixer.get?_add _ _ _⟩, nofun⟩
      show r.mixer.connected ++ [r.mixer.channels.length] = [r.mixer.channels.length]
      rw [h.silent hplayer]
      rfl

/-- An operation on the deck. -/
theorem Settled.withDeck (h : r.Settled) (hplayer : r.player.isSome = true) {d : Deck}
    (hkeeps : r.deck.Keeps d) (hholds : d.Holds r.Mounts) : (r.withDeck d).Settled where
  toFiled := h.toFiled.withDeck (by rw [hkeeps.media, media_deck])
  player_iff := by
    rw [h.player_withDeck, mounted_withDeck]
    exact iff_of_true rfl (h.player_iff.mp hplayer)
  sole _ := by
    rw [h.deck_withDeck, mounts_congr (drive?_withDeck r d)]
    exact (h.sole hplayer).of_keeps hkeeps hholds
  silent hnone := by
    rw [h.player_withDeck] at hnone
    cases hnone

theorem Manned.settled (h : r.Manned) (hmounted : 0 < r.mounted) : r.Settled where
  toFiled := h.toFiled
  player_iff := ⟨fun _ => hmounted, fun _ => h.player⟩
  sole _ := h.sole
  silent hnone := by
    have hplayer := h.player
    rw [hnone] at hplayer
    cases hplayer

@[simp] theorem drives_releasePlayer (r : Registry) : r.releasePlayer.drives = r.drives := by
  unfold releasePlayer
  split
  · rfl
  · split <;> rfl

@[simp] theorem cursors_releasePlayer (r : Registry) : r.releasePlayer.cursors = r.cursors := by
  unfold releasePlayer
  split
  · rfl
  · split
    · rfl
    · exact Deck.cursors_stop _

@[simp] theorem media_releasePlayer (r : Registry) : r.releasePlayer.media = r.media := by
  unfold releasePlayer
  split
  · rfl
  · split
    · rfl
    · exact (Deck.keeps_stop _).media

/-- While something is mounted the player stays. -/
theorem releasePlayer_of_mounted (h : 0 < r.mounted) : r.releasePlayer = r := by
  unfold releasePlayer
  rw [if_pos h]

theorem player_of_unshared (h : r.shared = none) : r.player = none := by
  rw [player, h]
  rfl

/-- With nothing mounted, the player goes and takes its channel along. -/
theorem releasePlayer_of_unmounted (hmounted : r.mounted = 0) (hshared : r.shared.isSome = true)
    (hwired : ∃ id, r.deck.player.channel = some id ∧ r.deck.mixer.connected = [id]) :
    r.releasePlayer.shared = none ∧ r.releasePlayer.mixer.connected = [] ∧
      r.releasePlayer.mixer.channels = r.deck.stop.mixer.channels := by
  obtain ⟨channel, hchannel, hconnected⟩ := hwired
  have hkeeps := Deck.keeps_stop r.deck
  obtain ⟨id, hid⟩ := Option.isSome_iff_exists.mp hshared
  unfold releasePlayer
  rw [if_neg (Nat.not_lt.mpr (Nat.le_of_eq hmounted)), hid]
  dsimp only
  rw [← deck_of_shared hid, hkeeps.channel, hchannel]
  refine ⟨rfl, ?_, rfl⟩
  show r.deck.stop.mixer.connected.filter (· ≠ channel) = []
  rw [hkeeps.connected, hconnected]
  simp

theorem Manned.releasePlayer (h : r.Manned) : r.releasePlayer.Settled := by
  rcases Nat.eq_zero_or_pos r.mounted with hmounted | hmounted
  · obtain ⟨id, c, hchannel, hconnected, -⟩ := h.sole.channel
    obtain ⟨hnone, hsilent, -⟩ := releasePlayer_of_unmounted hmounted
      (h.isSome_player ▸ h.player) ⟨id, hchannel, hconnected⟩
    have hplayer := player_of_unshared hnone
    have hdrive : r.releasePlayer.drive? = r.drive? := by
      unfold drive?
      rw [drives_releasePlayer]
    refine ⟨⟨?_, ?_, ?_, ?_, ?_⟩, ?_, ?_, fun _ => hsilent⟩
    · rw [drives_releasePlayer]
      exact h.letters
    · unfold Mounts
      rw [hdrive, media_releasePlayer]
      exact h.media
    · rw [hdrive]
      exact h.distinct
    · rw [hnone]
      exact nofun
    · intro n drive hat
      -- nothing is mounted
      rw [hdrive] at hat
      exact absurd (mounted_pos_iff.mpr ⟨n, drive, hat⟩) (Nat.not_lt.mpr (Nat.le_of_eq hmounted))
    · unfold mounted at hmounted ⊢
      rw [hplayer, drives_releasePlayer, hmounted]
      exact iff_of_false Bool.false_ne_true (Nat.lt_irrefl 0)
    · intro hsome
      rw [hplayer] at hsome
      cases hsome
  · rw [releasePlayer_of_mounted hmounted]
    exact h.settled hmounted

/-! ### Mounting and unmounting -/

/-- The drive that is mounted with a disc. -/
def mountedDrive (r : Registry) (disc : Disc) : Drive where
  medium := ⟨r.media + 1, disc⟩
  player := r.sharedPlayer.1

/-- The registry in which a disc has been put into a drive. -/
def withDisc (r : Registry) (n : Nat) (disc : Disc) (cursors : Cursors) : Registry :=
  { r.withDeck { r.deck with cursors, media := r.media + 2 } with
    drives := r.drives.set n (some (r.mountedDrive disc)) }

/-- The registry in which a disc could not be loaded. -/
def withoutDisc (r : Registry) : Registry :=
  (r.withDeck { r.deck with media := r.media + 1 }).releasePlayer

/-- The registry from which a drive has been taken. -/
def withoutDrive (r : Registry) (n : Nat) (drive : Drive) : Registry :=
  ({ r with drives := r.drives.set n none }.withDeck
    (r.deck.release drive.medium.id)).releasePlayer

/-- A medium that was not there before is not held. -/
theorem Settled.release_blank (h : r.Settled) (cursors : Cursors) (media : Nat) :
    ({ r.deck with cursors, media } : Deck).release r.media = { r.deck with cursors, media } := by
  refine Deck.Holds.release_eq (P := r.Mounts) ?_ fun m hm => Nat.ne_of_lt (h.media m hm)
  exact h.sole_deck.holds

/-- A drive that has just been given the player goes without a trace if its disc is not held. -/
theorem Filed.release_given (h : r.Filed) (drive : Drive) {d : Deck}
    (hgiven : drive.player = r.sharedPlayer.1) (hfree : d.release drive.medium.id = d) :
    (r.withDeck d).release drive = r.withDeck d := by
  have hshared : (r.withDeck d).shared = some drive.player := by
    rw [hgiven]
    exact shared_withDeck r d
  rw [release_of_shared hshared, h.deck_withDeck, withDeck_withDeck, hfree]

/-- **What a mount can do**: nothing, since the letter is wrong or taken; or it finds no disc; or a disc
is put into a free drive. The blank disc that is there before is never held. -/
theorem Settled.mount_cases (h : r.Settled) (lib : Library) (n : Nat) (path : String) :
    ((∃ e, (r.mount lib n path).1 = .error e) ∧
      ((r.mount lib n path).2 = r ∨ (r.mount lib n path).2 = r.withoutDisc)) ∨
    ∃ disc cursors, n < Letter.count ∧ r.drive? n = none ∧
      Disc.load lib path r.cursors = .ok (disc, cursors) ∧
      (r.mount lib n path).1 = .ok (r.mountedDrive disc) ∧
      (r.mount lib n path).2 = r.withDisc n disc cursors := by
  unfold mount
  split
  · exact Or.inl ⟨⟨_, rfl⟩, Or.inl rfl⟩
  · rename_i hletter
    split
    · exact Or.inl ⟨⟨_, rfl⟩, Or.inl rfl⟩
    · rename_i hfree
      unfold Drive.blank Drive.insert
      simp only [cursors_deck, media_deck]
      cases hload : Disc.load lib path r.cursors with
      | error e =>
          refine Or.inl ⟨⟨_, rfl⟩, Or.inr ?_⟩
          have hreleased := h.toFiled.release_given
            { medium := ⟨r.media, .blank⟩, player := r.sharedPlayer.1 } rfl
            (h.release_blank r.deck.cursors (r.media + 1))
          rw [withoutDisc, ← hreleased]
          simp only [cursors_deck]
      | ok loaded =>
          refine Or.inr ⟨loaded.1, loaded.2, Nat.lt_of_not_le hletter, ?_, rfl, ?_, ?_⟩
          · simpa using hfree
          · simp only [h.release_blank, mountedDrive]
          · simp only [h.release_blank, withDisc, mountedDrive]

theorem Filed.unmount_cases (h : r.Filed) (n : Nat) :
    (r.unmount n).2 = r ∨ ∃ drive, r.drive? n = some drive ∧
      (r.unmount n).2 = r.withoutDrive n drive := by
  unfold unmount
  split
  · exact Or.inl rfl
  · cases hat : r.drive? n with
    | none => exact Or.inl rfl
    | some drive =>
        refine Or.inr ⟨drive, rfl, ?_⟩
        dsimp only
        rw [release_of_shared (r := { r with drives := r.drives.set n none }) (h.given n drive hat),
          deck_drives]
        rfl

/-- A deck that holds a mounted disc, with the only channel, mans the registry. -/
theorem Filed.manned (h : r.Filed) {d : Deck} (hmedia : r.media ≤ d.media) (hsole : d.Sole r.Mounts) :
    (r.withDeck d).Manned where
  toFiled := h.withDeck hmedia
  player := by
    rw [h.player_withDeck]
    rfl
  sole := by
    rwa [h.deck_withDeck, mounts_congr (drive?_withDeck r d)]

theorem Settled.withoutDisc (h : r.Settled) : r.withoutDisc.Settled :=
  Manned.releasePlayer (h.toFiled.manned (Nat.le_succ _) ⟨h.sole_deck.channel, h.sole_deck.holds⟩)

theorem Settled.withDisc (h : r.Settled) (hletter : n < Letter.count) (hfree : r.drive? n = none)
    (disc : Disc) (cursors : Cursors) : (r.withDisc n disc cursors).Settled := by
  have hn : n < r.drives.length := h.letters.symm ▸ hletter
  have hdrive (m : Nat) : (r.withDisc n disc cursors).drive? m =
      if m = n then some (r.mountedDrive disc) else r.drive? m := drive?_of_set hn rfl m
  have hmanned : (r.withDeck { r.deck with cursors, media := r.media + 2 }).Manned :=
    h.toFiled.manned (Nat.le_add_right _ 2) ⟨h.sole_deck.channel, h.sole_deck.holds⟩
  have hfiled : (r.withDisc n disc cursors).Filed := by
    unfold Registry.withDisc
    rw [← drives_withDeck r { r.deck with cursors, media := r.media + 2 }]
    refine hmanned.toFiled.set (by rwa [drives_withDeck]) fun drive hnew => ?_
    obtain rfl := Option.some.inj hnew
    refine ⟨fun m hm => ?_, Nat.lt_succ_self _, shared_withDeck r _⟩
    rw [mounts_congr (drive?_withDeck r _)] at hm
    exact Nat.ne_of_lt (Nat.lt_succ_of_lt (h.media m hm))
  refine Manned.settled ⟨hfiled, hmanned.player, ?_⟩ ?_
  · unfold Registry.withDisc
    rw [deck_drives]
    refine hmanned.sole.mono ?_
    rintro _ ⟨m, drive, hat, rfl⟩
    rw [drive?_withDeck] at hat
    refine ⟨m, drive, ?_, rfl⟩
    rw [← Registry.withDisc, hdrive, if_neg, hat]
    rintro rfl
    rw [hfree] at hat
    cases hat
  · refine mounted_pos_iff.mpr ⟨n, r.mountedDrive disc, ?_⟩
    rw [hdrive, if_pos rfl]

theorem Settled.withoutDrive (h : r.Settled) {drive : Drive} (hat : r.drive? n = some drive) :
    (r.withoutDrive n drive).Settled := by
  have hn := lt_of_drive? hat
  have hmedia : r.media ≤ (r.deck.release drive.medium.id).media := by
    rw [(Deck.keeps_release r.deck _).media, media_deck]
  have hfiled : Filed { r with drives := r.drives.set n none } :=
    h.toFiled.set hn fun drive hnone => by cases hnone
  refine Manned.releasePlayer (hfiled.manned hmedia ?_)
  -- the disc that is still held is in another drive
  refine ((h.sole (h.isSome_player hat)).release drive.medium.id).mono ?_
  rintro _ ⟨⟨m, drive', hat', rfl⟩, hother⟩
  refine ⟨m, drive', ?_, rfl⟩
  rw [drive?_of_set (r := r) hn rfl, if_neg, hat']
  rintro rfl
  rw [hat] at hat'
  exact hother (congrArg (·.medium.id) (Option.some.inj hat')).symm

/-! ### A run -/

theorem settled_empty : empty.Settled := by
  have hnone (n : Nat) : empty.drive? n = none := by
    unfold empty drive?
    rw [List.getElem?_replicate]
    split <;> rfl
  refine ⟨⟨rfl, ?_, ?_, nofun, ?_⟩, ?_, nofun, fun _ => rfl⟩
  · rintro _ ⟨n, drive, hat, -⟩
    rw [hnone] at hat
    cases hat
  · intro n n' drive drive' hat
    rw [hnone] at hat
    cases hat
  · intro n drive hat
    rw [hnone] at hat
    cases hat
  · exact iff_of_false Bool.false_ne_true (Nat.lt_irrefl 0)

/-- What an action can do to a registry. -/
inductive Step (r : Registry) : Registry → Prop
  | same : Step r r
  | withoutDisc : Step r r.withoutDisc
  | withDisc {lib : Library} {n : Nat} {path : String} {disc : Disc} {cursors : Cursors}
    (hletter : n < Letter.count) (hfree : r.drive? n = none)
    (hload : Disc.load lib path r.cursors = .ok (disc, cursors)) : Step r (r.withDisc n disc cursors)
  | withoutDrive {n : Nat} {drive : Drive} (hat : r.drive? n = some drive) :
    Step r (r.withoutDrive n drive)
  | withDeck {d : Deck} (hplayer : r.player.isSome = true) (hkeeps : r.deck.Keeps d)
    (hholds : d.Holds r.Mounts) : Step r (r.withDeck d)

theorem Settled.step (h : r.Settled) (action : Action) : r.Step (r.after action) := by
  cases action with
  | mount lib n path =>
      show r.Step (r.mount lib n path).2
      rcases h.mount_cases lib n path with
        ⟨-, hsame | hfailed⟩ | ⟨disc, cursors, hletter, hfree, hload, -, hmounted⟩
      · rw [hsame]
        exact .same
      · rw [hfailed]
        exact .withoutDisc
      · rw [hmounted]
        exact .withDisc hletter hfree hload
  | unmount n =>
      show r.Step (r.unmount n).2
      rcases h.unmount_cases n with hsame | ⟨drive, hat, hunmounted⟩
      · rw [hsame]
        exact .same
      · rw [hunmounted]
        exact .withoutDrive hat
  | use n u =>
      show r.Step ((r.use n u).elim r (·.2))
      rw [h.use_eq]
      cases hat : r.drive? n with
      | none => exact .same
      | some drive =>
          exact .withDeck (h.isSome_player hat) (Use.keeps drive r.deck u)
            (Use.holds h.sole_deck.holds ⟨n, drive, hat, rfl⟩ u)
  | pump frames =>
      show r.Step (r.pump frames).2
      cases hplayer : r.player with
      | none =>
          rw [pump, h.shared_of_no_player hplayer]
          exact .same
      | some p =>
          rw [pump_of_player hplayer]
          exact .withDeck (by rw [hplayer]; rfl) (Deck.keeps_pump r.deck frames)
            (h.sole_deck.holds.pump frames)
  | drain =>
      show r.Step r.drain.2
      cases hplayer : r.player with
      | none =>
          rw [drain, h.shared_of_no_player hplayer]
          exact .same
      | some p =>
          rw [drain_of_player hplayer]
          exact .withDeck (by rw [hplayer]; rfl) (Deck.keeps_drain r.deck) h.sole_deck.holds.drain

theorem Settled.of_step (h : r.Settled) {r' : Registry} (hstep : r.Step r') : r'.Settled := by
  cases hstep with
  | same => exact h
  | withoutDisc => exact h.withoutDisc
  | withDisc hletter hfree _ => exact h.withDisc hletter hfree _ _
  | withoutDrive hat => exact h.withoutDrive hat
  | withDeck hplayer hkeeps hholds => exact h.withDeck hplayer hkeeps hholds

theorem settled_run (actions : List Action) : (empty.run actions).Settled := by
  suffices h : ∀ r : Registry, r.Settled → (r.run actions).Settled from h empty settled_empty
  induction actions with
  | nil => exact fun r h => h
  | cons action actions ih => exact fun r h => ih (r.after action) (h.of_step (h.step action))

/-! ### The end of a registry -/

/-- Without a player there is no drive from which a disc could be taken. -/
theorem foldl_release_of_unshared (hnone : r.shared = none) (drives : List (Option Drive))
    (hgiven : ∀ drive, some drive ∈ drives → r.shared = some drive.player) :
    drives.foldl (fun r drive => drive.elim r r.release) r = r := by
  induction drives with
  | nil => rfl
  | cons x drives ih =>
      cases x with
      | none => exact ih fun drive hmem => hgiven drive (List.mem_cons_of_mem _ hmem)
      | some drive =>
          have hshared := hgiven drive List.mem_cons_self
          rw [hnone] at hshared
          cases hshared

/-- Taking out all discs leaves the player and its channel where they are. -/
theorem Filed.foldl_release (h : r.Filed) (hshared : r.shared.isSome = true)
    (drives : List (Option Drive)) (hgiven : ∀ drive, some drive ∈ drives → r.shared = some drive.player) :
    let released := drives.foldl (fun r drive => drive.elim r r.release) r
    released.shared = r.shared ∧ r.deck.Keeps released.deck := by
  induction drives generalizing r with
  | nil => exact ⟨rfl, .refl _⟩
  | cons x drives ih =>
      have hrest (drive : Drive) (hmem : some drive ∈ drives) : r.shared = some drive.player :=
        hgiven drive (List.mem_cons_of_mem _ hmem)
      cases x with
      | none => exact ih h hshared hrest
      | some drive =>
          have hthis := hgiven drive List.mem_cons_self
          have hkeeps := Deck.keeps_release r.deck drive.medium.id
          have hreleased := release_of_shared hthis
          have hsame : (r.release drive).shared = r.shared := by
            rw [hreleased, shared_withDeck, sharedPlayer_of_shared hthis, hthis]
          have hdeck : (r.release drive).deck = r.deck.release drive.medium.id := by
            rw [hreleased, h.deck_withDeck]
          have hfiled : (r.release drive).Filed := by
            rw [hreleased]
            exact h.withDeck (by rw [hkeeps.media, media_deck])
          obtain ⟨hlast, hkept⟩ := ih hfiled (by rw [hsame, hshared])
            (fun drive' hmem => hsame.trans (hrest drive' hmem))
          rw [hdeck] at hkept
          exact ⟨hlast.trans hsame, hkeeps.trans hkept⟩

/-- **Nothing is left** when a registry goes: no drive, no player and no channel. -/
theorem Settled.clear (h : r.Settled) :
    r.clear.mounted = 0 ∧ r.clear.shared = none ∧ r.clear.mixer.connected = [] := by
  have hgiven (drive : Drive) (hmem : some drive ∈ r.drives) : r.shared = some drive.player := by
    obtain ⟨n, hat⟩ := List.mem_iff_getElem?.mp hmem
    exact h.given n drive (Option.join_eq_some_iff.mpr hat)
  have hmounted : (List.replicate Letter.count (none : Option Drive)).countP (·.isSome) = 0 := by
    decide
  have hgone : r.clear.mounted = 0 := by
    unfold Registry.clear mounted
    rw [drives_releasePlayer]
    exact hmounted
  refine ⟨hgone, ?_⟩
  unfold Registry.clear
  cases hshared : r.shared with
  | none =>
      rw [foldl_release_of_unshared hshared r.drives hgiven]
      unfold Registry.releasePlayer
      rw [if_neg (by rw [mounted, hmounted]; exact Nat.lt_irrefl 0)]
      dsimp only
      rw [hshared]
      exact ⟨rfl, h.silent (player_of_unshared hshared)⟩
  | some id =>
      obtain ⟨channel, c, hchannel, hconnected, -⟩ := h.sole_deck.channel
      obtain ⟨hsame, hkeeps⟩ := h.toFiled.foldl_release (by rw [hshared]; rfl) r.drives hgiven
      dsimp only
      generalize r.drives.foldl (fun r drive => drive.elim r r.release) r = released at hsame hkeeps ⊢
      obtain ⟨hnone, hempty, -⟩ := releasePlayer_of_unmounted
        (r := { released with drives := List.replicate Letter.count none }) hmounted
        (by rw [hsame, hshared]; rfl) (by
          rw [deck_drives]
          exact ⟨channel, hkeeps.channel.trans hchannel, hkeeps.connected.trans hconnected⟩)
      exact ⟨hnone, hempty⟩

/-- **The player of the drives.** Whatever is mounted and unmounted, with or without success, and whatever
is done with the mounted drives: there is a player exactly if something is mounted. Its channel is then
the only one of the mixer, and without a player there is none. Every mounted drive has been given this
player and no other one, and the disc that it holds is that of a mounted drive. When the registry goes, so
do the player and its channel. -/
theorem lifecycle (actions : List Action) :
    let r := empty.run actions
    (r.shared.isSome = true ↔ 0 < r.mounted) ∧
    (r.shared = none → r.mixer.connected = []) ∧
    (∀ id, r.shared = some id → ∃ p, r.players[id]? = some p ∧
      (∃ channel c, p.channel = some channel ∧ r.mixer.connected = [channel] ∧
        r.mixer.get? channel = some c) ∧
      (∀ n drive, r.drive? n = some drive → drive.player = id) ∧
      ∀ s, p.segment = some s → ∃ n drive, r.drive? n = some drive ∧ s.medium = drive.medium) ∧
    r.clear.mounted = 0 ∧ r.clear.shared = none ∧ r.clear.mixer.connected = [] := by
  intro r
  have h : r.Settled := settled_run actions
  have hsome := h.toFiled.isSome_player
  refine ⟨hsome ▸ h.player_iff, fun hnone => h.silent (player_of_unshared hnone), fun id hid => ?_,
    h.clear⟩
  obtain ⟨p, hp⟩ : ∃ p, r.players[id]? = some p :=
    ⟨_, List.getElem?_eq_getElem (h.made id hid)⟩
  have hplayer := player_eq_some_iff.mpr ⟨id, hid, hp⟩
  have hsole := h.sole (by rw [hplayer]; rfl)
  rw [deck_of_player hplayer] at hsole
  refine ⟨_, hp, hsole.channel, fun n drive hat => ?_, fun s hs => (hsole.holds s hs).1⟩
  exact Option.some.inj ((h.given n drive hat).symm.trans hid)

/-- After a mount that failed and two that did not, the first disc is taken out, and the second plays on
with the player and the channel that were brought last. -/
theorem lifecycle_twoDrives :
    let lib := Library.ofStorage Sheet.twoFilesStorage
    let r := empty.run [.mount lib 0 "missing", .mount lib 0 "s", .mount lib 25 "s",
      .use 25 (.play 0 2), .pump 1, .unmount 0]
    0 < r.mounted ∧ r.shared = some 1 ∧ ∃ p s drive, r.players[1]? = some p ∧ p.playing = true ∧
      p.channel = some 1 ∧ r.mixer.connected = [1] ∧ p.segment = some s ∧
      r.drive? 25 = some drive ∧ drive.player = 1 ∧ s.medium = drive.medium ∧
      r.clear.mixer.connected = [] := by
  intro lib r
  have hseen : (r.shared, r.player.map (·.playing), r.player.bind (·.channel), r.mixer.connected,
      (r.player.bind (·.segment)).isSome,
      (List.range Letter.count).filter fun n => (r.drive? n).isSome) =
        (some 1, some true, some 1, [1], true, [25]) := by
    decide +kernel
  simp only [Prod.mk.injEq] at hseen
  obtain ⟨hshared, hplaying, hchannel, hconnected, hholds, hdrives⟩ := hseen
  obtain ⟨hplayer, -, hheld, -, -, hcleared⟩ := lifecycle [.mount lib 0 "missing",
    .mount lib 0 "s", .mount lib 25 "s", .use 25 (.play 0 2), .pump 1, .unmount 0]
  obtain ⟨p, hp, -, hgiven, hmedia⟩ := hheld 1 hshared
  have hthis : r.player = some p := player_eq_some_iff.mpr ⟨1, hshared, hp⟩
  rw [hthis] at hplaying hchannel hholds
  obtain ⟨s, hs⟩ := Option.isSome_iff_exists.mp hholds
  obtain ⟨n, drive, hat, hmedium⟩ := hmedia s hs
  have hn : n ∈ (List.range Letter.count).filter fun n => (r.drive? n).isSome := by
    have hsettled : r.Settled := settled_run _
    refine List.mem_filter.mpr ⟨List.mem_range.mpr ?_, by rw [hat]; rfl⟩
    exact hsettled.letters ▸ lt_of_drive? hat
  rw [hdrives, List.mem_singleton] at hn
  subst hn
  exact ⟨hplayer.mp (by rw [hshared]; rfl), hshared, p, s, drive, hp, Option.some.inj hplaying,
    hchannel, hconnected, hs, hat, hgiven 25 drive hat, hmedium, hcleared⟩

end Registry

end CompactDisc
