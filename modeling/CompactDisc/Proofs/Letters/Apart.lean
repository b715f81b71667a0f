import CompactDisc.Proofs.Letters.Lifecycle
import CompactDisc.Proofs.Sound.Beside

/-!
# CompactDisc.Proofs.Letters.Apart

**Drives do not disturb each other.** All drives share one player, and every mount and unmount goes
through it: a blank disc is released before the image is loaded and when that fails, and the disc of a
drive is released when it is taken out. But no blank disc is ever held, no two drives have the same
medium, and new sources are opened behind those that are known. So mounts and unmounts of other drives
can be struck out of a history, and the player is the same (`Registry.Alongside.run`).

Proof shape: two registries are compared, with and without the mounts and unmounts of some drives.
They agree on the player, the mixer and the drives that are left alone, and one knows more sources
(`Registry.Alongside`). A mount or an unmount is a step of the one registry only; everything else is a
step of both, on decks of which one is beside more sources (`Deck.beside`).
-/

namespace CompactDisc

/-- A use is for sources that are open. -/
theorem Use.on_beside {drive : Drive} {d : Deck} (hopen : drive.disc.OpenIn d.cursors)
    (more : List Nat) (media : Nat) (u : Use) :
    u.on drive (d.beside more media) = ((u.on drive d).1, (u.on drive d).2.beside more media) := by
  cases u with
  | play start length =>
      unfold Use.on Drive.play
      dsimp only
      rw [Deck.play_beside more media hopen]
  | pause resume => exact congrArg (Prod.mk _) (Deck.pause_beside more media d resume)
  | stop => exact congrArg (Prod.mk _) (Deck.stop_beside more media d)
  | control volume map => exact congrArg (Prod.mk _) (Deck.control_beside more media d volume map)
  | readSector buffer raw sector =>
      unfold Use.on
      dsimp only
      rw [show (d.beside more media).cursors = d.cursors.append more from rfl,
        Drive.readSector_append hopen]
      rfl
  | readSectors buffer raw sector count =>
      unfold Use.on
      dsimp only
      rw [show (d.beside more media).cursors = d.cursors.append more from rfl,
        Drive.readSectors_append hopen]
      rfl

namespace Registry

/-! ### Histories -/

/-- The drive whose disc an action changes. -/
def Action.changes? : Action → Option Nat
  | .mount _ n _ => some n
  | .unmount n => some n
  | _ => none

/-- The drive that an action uses. -/
def Action.uses? : Action → Option Nat
  | .use n _ => some n
  | _ => none

/-- Whether an action leaves all discs where they are. -/
def Action.isQuiet (action : Action) : Bool := action.changes?.isNone

/-- What is heard from the player. -/
inductive Reply where
  | used (answer : Option Use.Answer)
  | pumped (on : Bool)
  | drained (samples : List Int16)

/-- The reply to an action that is not about discs. -/
def reply? (r : Registry) : Action → Option Reply
  | .use n u => some (.used ((r.use n u).map (·.1)))
  | .pump frames => some (.pumped (r.pump frames).1)
  | .drain => some (.drained r.drain.1)
  | _ => none

/-- The replies to actions in order. -/
def replies (r : Registry) : List Action → List Reply
  | [] => []
  | action :: actions => (r.reply? action).toList ++ (r.after action).replies actions

/-! ### Sources -/

/-- A settled registry in which the sources of all mounted discs are open. -/
structure Opened (r : Registry) : Prop extends Settled r where
  sources : ∀ m, r.Mounts m → m.disc.OpenIn r.cursors

variable {r r' : Registry} {n : Nat}

/-- Where no disc is new and no source is closed, all sources are still open. -/
theorem Opened.of_drives (h : r.Opened) (hsettled : r'.Settled)
    (hdrives : ∀ n drive, r'.drive? n = some drive → r.drive? n = some drive)
    (hlength : r'.cursors.positions.length = r.cursors.positions.length) : r'.Opened where
  toSettled := hsettled
  sources := by
    rintro _ ⟨n, drive, hat, rfl⟩
    exact (h.sources _ ⟨n, drive, hdrives n drive hat, rfl⟩).of_le (Nat.le_of_eq hlength.symm)

theorem opened_empty : empty.Opened where
  toSettled := settled_empty
  sources m hm := by
    obtain ⟨n, drive, hat, -⟩ := hm
    have hmounted : 0 < empty.mounted := mounted_pos_iff.mpr ⟨n, drive, hat⟩
    cases hmounted

/-- The disc that is mounted has its sources open, and those of the others stay open. -/
theorem Opened.withDisc (h : r.Opened) {lib : Library} {path : String} {disc : Disc}
    {cursors : Cursors} (hletter : n < Letter.count) (hfree : r.drive? n = none)
    (hload : Disc.load lib path r.cursors = .ok (disc, cursors)) :
    (r.withDisc n disc cursors).Opened where
  toSettled := h.toSettled.withDisc hletter hfree disc cursors
  sources := by
    obtain ⟨⟨more, rfl⟩, hopen⟩ := Disc.load_opens hload
    have hn : n < r.drives.length := h.letters.symm ▸ hletter
    rintro _ ⟨m, drive, hat, rfl⟩
    rw [drive?_of_set (r := r) hn rfl] at hat
    split at hat
    · obtain rfl := Option.some.inj hat
      exact hopen
    · exact (h.sources _ ⟨m, drive, hat, rfl⟩).of_le (Cursors.length_le_append _ more)

theorem Opened.of_step (h : r.Opened) (hstep : r.Step r') : r'.Opened := by
  have hsettled := h.toSettled.of_step hstep
  cases hstep with
  | same => exact h
  | withoutDisc =>
      refine h.of_drives hsettled (fun m drive hat => ?_) ?_
      · unfold drive? withoutDisc at hat
        rw [drives_releasePlayer, drives_withDeck] at hat
        exact hat
      · unfold withoutDisc
        rw [cursors_releasePlayer]
        exact congrArg (·.positions.length) (cursors_deck r)
  | withDisc hletter hfree hload => exact h.withDisc hletter hfree hload
  | withoutDrive hat =>
      refine h.of_drives hsettled (fun m drive' hat' => ?_) ?_
      · unfold withoutDrive at hat'
        rw [drive?_of_set (r := r) (lt_of_drive? hat)
          ((drives_releasePlayer _).trans (drives_withDeck _ _))] at hat'
        split at hat'
        · cases hat'
        · exact hat'
      · unfold withoutDrive
        rw [cursors_releasePlayer]
        exact (Deck.keeps_release r.deck _).opened.trans
          (congrArg (·.positions.length) (cursors_deck r))
  | withDeck hplayer hkeeps hholds =>
      refine h.of_drives hsettled (fun m drive hat => by rwa [drive?_withDeck] at hat) ?_
      rw [← cursors_deck r, ← hkeeps.opened]
      rfl

theorem opened_run (h : r.Opened) (actions : List Action) : (r.run actions).Opened := by
  induction actions generalizing r with
  | nil => exact h
  | cons action actions ih => exact ih (h.of_step (h.step action))

/-! ### Failed mounts -/

/-- Nothing that could be seen has changed: neither the drives nor the player nor the channels. A channel
may have come and gone. -/
structure Unchanged (r r' : Registry) : Prop where
  drives : r'.drives = r.drives
  shared : r'.shared = r.shared
  player : r'.player = r.player
  cursors : r'.cursors = r.cursors
  connected : r'.mixer.connectedChannels = r.mixer.connectedChannels
  channels : r.mixer.channels <+: r'.mixer.channels
  mixer : 0 < r.mounted → r'.mixer = r.mixer

theorem Unchanged.refl (r : Registry) : r.Unchanged r :=
  ⟨rfl, rfl, rfl, rfl, rfl, List.prefix_rfl, fun _ => rfl⟩

/-- While something is mounted, nothing but the number of media changes. -/
theorem withoutDisc_of_mounted {p : Player} (hplayer : r.player = some p) (hmounted : 0 < r.mounted) :
    r.withoutDisc = { r with media := r.media + 1 } := by
  obtain ⟨id, hshared, hp⟩ := player_eq_some_iff.mp hplayer
  obtain ⟨hid, hsame⟩ := List.getElem?_eq_some_iff.mp hp
  unfold withoutDisc
  rw [releasePlayer_of_mounted (by rwa [mounted_withDeck]), deck_of_player hplayer,
    withDeck_of_shared hshared, withDeckOf, ← hsame, List.set_getElem_self]

/-- The channel that a mount brings goes before it is used. -/
theorem Settled.unchanged_withoutDisc (h : r.Settled) : r.Unchanged r.withoutDisc := by
  cases hplayer : r.player with
  | some p =>
      have hmounted : 0 < r.mounted := h.player_iff.mp (by rw [hplayer]; rfl)
      rw [withoutDisc_of_mounted hplayer hmounted]
      exact ⟨rfl, rfl, rfl, rfl, rfl, List.prefix_rfl, fun _ => rfl⟩
  | none =>
      have hmounted := h.mounted_of_no_player hplayer
      have hshared := h.shared_of_no_player hplayer
      obtain ⟨id, c, hchannel, hconnected, -⟩ := h.sole_deck.channel
      obtain ⟨hnone, hsilent, hchannels⟩ := releasePlayer_of_unmounted
        (r := r.withDeck { r.deck with media := r.media + 1 }) (by rwa [mounted_withDeck])
        (by rw [shared_withDeck]; rfl) (by rw [h.deck_withDeck]; exact ⟨id, hchannel, hconnected⟩)
      refine ⟨(drives_releasePlayer _).trans (drives_withDeck _ _), hnone.trans hshared.symm,
        (player_of_unshared hnone).trans hplayer.symm, ?_, ?_, ?_, fun hpos => ?_⟩
      · exact (cursors_releasePlayer _).trans (cursors_deck r)
      · unfold Mixer.connectedChannels
        rw [h.silent hplayer]
        unfold Registry.withoutDisc
        rw [hsilent]
        rfl
      · unfold Registry.withoutDisc
        rw [hchannels, h.deck_withDeck, deck_of_unshared hshared]
        show r.mixer.channels <+: List.modify (r.mixer.channels ++ [_]) r.mixer.channels.length _
        rw [List.prefix_iff_eq_take, List.take_modify]
        simp [List.modify_eq_self]
      · omega

theorem Settled.unchanged_of_error (h : r.Settled) {lib : Library} {path : String} {e : LetterError}
    (he : (r.mount lib n path).1 = .error e) : r.Unchanged (r.mount lib n path).2 := by
  rcases h.mount_cases lib n path with ⟨-, hsame | hfailed⟩ | ⟨disc, cursors, -, -, -, hok, -⟩
  · rw [hsame]
    exact .refl r
  · rw [hfailed]
    exact h.unchanged_withoutDisc
  · rw [hok] at he
    cases he

/-! ### With and without other drives -/

/-- A disc in one of the given drives. -/
def MountsIn (r : Registry) (kept : Nat → Prop) (m : Medium) : Prop :=
  ∃ n drive, kept n ∧ r.drive? n = some drive ∧ m = drive.medium

/-- Registries with the same player and channels and the same of the kept drives, one of which knows more
sources. What is held is the disc of a kept drive, and one of them is mounted. -/
structure Alongside (kept : Nat → Prop) (r r' : Registry) : Prop where
  player : r'.player = r.player
  mixer : r'.mixer = r.mixer
  cursors : ∃ more, r'.cursors = r.cursors.append more
  drives : ∀ n, kept n → r'.drive? n = r.drive? n
  held : r.deck.Holds (r.MountsIn kept)
  mounted : ∃ n drive, kept n ∧ r.drive? n = some drive

namespace Alongside

variable {kept : Nat → Prop}

theorem mounted_pos (h : Alongside kept r r') : 0 < r'.mounted := by
  obtain ⟨n, drive, hn, hat⟩ := h.mounted
  exact mounted_pos_iff.mpr ⟨n, drive, (h.drives n hn).trans hat⟩

/-- The decks differ in the sources and media alone. -/
theorem deck_eq (h : Alongside kept r r') {p : Player} (hplayer : r.player = some p) :
    ∃ more, r'.deck = r.deck.beside more r'.media := by
  obtain ⟨more, hmore⟩ := h.cursors
  refine ⟨more, ?_⟩
  rw [deck_of_player hplayer, deck_of_player (h.player.trans hplayer), h.mixer, hmore]
  rfl

/-- Something happens to a drive that is not kept. -/
theorem of_set (h : Alongside kept r r') {r'' : Registry} {x : Option Drive}
    (hplayer : r''.player = r'.player) (hmixer : r''.mixer = r'.mixer)
    (hcursors : ∃ more, r''.cursors = r'.cursors.append more)
    (hdrives : r''.drives = r'.drives.set n x) (hn : ¬ kept n) : Alongside kept r r'' where
  player := hplayer.trans h.player
  mixer := hmixer.trans h.mixer
  cursors := by
    obtain ⟨more, hmore⟩ := h.cursors
    obtain ⟨more', hmore'⟩ := hcursors
    exact ⟨more ++ more', by rw [hmore', hmore, Cursors.append_append]⟩
  drives m hm := by
    rw [← h.drives m hm]
    unfold drive?
    rw [hdrives, List.getElem?_set_ne]
    rintro rfl
    exact hn hm
  held := h.held
  mounted := h.mounted

/-- A mount in another drive makes no difference. -/
theorem mount (h : Alongside kept r r') (hsettled : r'.Settled) (hn : ¬ kept n) (lib : Library)
    (path : String) : Alongside kept r (r'.mount lib n path).2 := by
  obtain ⟨p, hplayer⟩ := Option.isSome_iff_exists.mp (hsettled.player_iff.mpr h.mounted_pos)
  rcases hsettled.mount_cases lib n path with
    ⟨-, hsame | hfailed⟩ | ⟨disc, cursors, -, -, hload, -, hmounted⟩
  · rw [hsame]
    exact h
  · rw [hfailed, withoutDisc_of_mounted hplayer h.mounted_pos]
    exact ⟨h.player, h.mixer, h.cursors, h.drives, h.held, h.mounted⟩
  · have hdeck := deck_of_player hplayer
    rw [hmounted]
    refine h.of_set ?_ ?_ (Disc.load_opens hload).1 rfl hn
    · exact (hsettled.player_withDeck _).trans (by rw [hdeck, hplayer])
    · show r'.deck.mixer = r'.mixer
      rw [hdeck]

/-- An unmount of another drive makes no difference, since its disc is not held. -/
theorem unmount (h : Alongside kept r r') (hsettled : r'.Settled) (hn : ¬ kept n) :
    Alongside kept r (r'.unmount n).2 := by
  obtain ⟨p, hplayer⟩ := Option.isSome_iff_exists.mp (hsettled.player_iff.mpr h.mounted_pos)
  rcases hsettled.unmount_cases n with hsame | ⟨drive, hat, hunmounted⟩
  · rw [hsame]
    exact h
  · have hdeck := deck_of_player hplayer
    have hheld : r'.deck.Holds (r.MountsIn kept) := by
      refine h.held.congr ?_
      rw [hdeck, deck_of_player (h.player.symm.trans hplayer)]
    have hother : ∀ m, r.MountsIn kept m → m.id ≠ drive.medium.id := by
      rintro _ ⟨n', drive', hn', hat', rfl⟩ hid
      obtain rfl := hsettled.distinct n' n drive' drive ((h.drives n' hn').trans hat') hat hid
      exact hn hn'
    have hfiled : Filed { r' with drives := r'.drives.set n none } :=
      hsettled.toFiled.set (lt_of_drive? hat) fun drive hnone => by cases hnone
    have hemptied : Alongside kept r
        ({ r' with drives := r'.drives.set n none }.withDeck r'.deck) := by
      refine h.of_set ?_ ?_ ⟨[], ?_⟩ (drives_withDeck _ _) hn
      · rw [hfiled.player_withDeck, hdeck, hplayer]
      · show r'.deck.mixer = r'.mixer
        rw [hdeck]
      · show r'.deck.cursors = r'.cursors.append []
        rw [hdeck, Cursors.append_nil]
    rw [hunmounted]
    unfold withoutDrive
    rw [hheld.release_eq hother, releasePlayer_of_mounted hemptied.mounted_pos]
    exact hemptied

/-- Both go on with decks of which one is beside more sources. -/
theorem withDeck (h : Alongside kept r r') (hr : r.Filed) (hr' : r'.Filed) {d : Deck}
    (hholds : d.Holds (r.MountsIn kept)) (more : List Nat) (media : Nat) :
    Alongside kept (r.withDeck d) (r'.withDeck (d.beside more media)) where
  player := by
    rw [hr.player_withDeck, hr'.player_withDeck]
    rfl
  mixer := rfl
  cursors := ⟨more, rfl⟩
  drives n hn := by
    rw [drive?_withDeck, drive?_withDeck]
    exact h.drives n hn
  held := by
    unfold MountsIn
    simp only [drive?_withDeck]
    rw [hr.deck_withDeck]
    exact hholds
  mounted := by
    simp only [drive?_withDeck]
    exact h.mounted

/-- A use of a kept drive, a pump and a draining do the same on both sides. -/
theorem quiet (h : Alongside kept r r') (hopened : r.Opened) (hsettled : r'.Settled) {action : Action}
    (hquiet : action.changes? = none) (huses : ∀ n ∈ action.uses?, kept n) :
    Alongside kept (r.after action) (r'.after action) ∧ r'.reply? action = r.reply? action := by
  obtain ⟨a, drive, ha, hat⟩ := h.mounted
  obtain ⟨p, hplayer⟩ := Option.isSome_iff_exists.mp (hopened.isSome_player hat)
  obtain ⟨more, hdeck⟩ := h.deck_eq hplayer
  have hsources : r.deck.Holds fun m => m.disc.OpenIn r.deck.cursors := by
    refine h.held.mono ?_
    rintro _ ⟨n, drive, -, hat, rfl⟩
    rw [cursors_deck]
    exact hopened.sources _ ⟨n, drive, hat, rfl⟩
  cases action with
  | mount lib n path => cases hquiet
  | unmount n => cases hquiet
  | use n u =>
      have hn : kept n := huses n rfl
      unfold after reply?
      dsimp only
      rw [hopened.use_eq, hsettled.use_eq, h.drives n hn]
      cases hat : r.drive? n with
      | none => exact ⟨h, rfl⟩
      | some drive =>
          have hopen : drive.disc.OpenIn r.deck.cursors := by
            rw [cursors_deck]
            exact hopened.sources _ ⟨n, drive, hat, rfl⟩
          rw [hdeck, Option.map_some, Option.map_some, Use.on_beside hopen]
          exact ⟨h.withDeck hopened.toFiled hsettled.toFiled
            (Use.holds h.held ⟨n, drive, hn, hat, rfl⟩ u) more _, rfl⟩
  | pump frames =>
      unfold after reply?
      dsimp only
      rw [pump_of_player hplayer, pump_of_player (h.player.trans hplayer), hdeck,
        Deck.pump_beside more r'.media hsources]
      exact ⟨h.withDeck hopened.toFiled hsettled.toFiled (h.held.pump frames) more _, rfl⟩
  | drain =>
      unfold after reply?
      dsimp only
      rw [drain_of_player hplayer, drain_of_player (h.player.trans hplayer), hdeck,
        Deck.drain_beside]
      exact ⟨h.withDeck hopened.toFiled hsettled.toFiled h.held.drain more _, rfl⟩

/-- A mount or an unmount of a drive that is not kept is a step of one side only. -/
theorem changed (h : Alongside kept r r') (hsettled : r'.Settled) {action : Action}
    (hchanged : action.changes? = some n) (hn : ¬ kept n) :
    Alongside kept r (r'.after action) ∧ r'.reply? action = none := by
  cases action with
  | mount lib m path =>
      obtain rfl := Option.some.inj hchanged
      exact ⟨h.mount hsettled hn lib path, rfl⟩
  | unmount m =>
      obtain rfl := Option.some.inj hchanged
      exact ⟨h.unmount hsettled hn, rfl⟩
  | use m u => cases hchanged
  | pump frames => cases hchanged
  | drain => cases hchanged

/-- **The mounts and unmounts can be struck out**, if they are of drives that are not kept and only kept
drives are used. -/
theorem run (h : Alongside kept r r') (hopened : r.Opened) (hsettled : r'.Settled)
    (actions : List Action) (hchanges : ∀ action ∈ actions, ∀ n ∈ action.changes?, ¬ kept n)
    (huses : ∀ action ∈ actions, ∀ n ∈ action.uses?, kept n) :
    Alongside kept (r.run (actions.filter Action.isQuiet)) (r'.run actions) ∧
      r'.replies actions = r.replies (actions.filter Action.isQuiet) := by
  induction actions generalizing r r' with
  | nil => exact ⟨h, rfl⟩
  | cons action actions ih =>
      obtain ⟨hchange, hchanges⟩ := List.forall_mem_cons.mp hchanges
      obtain ⟨huse, huses⟩ := List.forall_mem_cons.mp huses
      have hsettled' := hsettled.of_step (hsettled.step action)
      cases hquiet : action.changes? with
      | some n =>
          obtain ⟨hafter, hreply⟩ := h.changed hsettled hquiet (hchange n hquiet)
          have hfilter : (action :: actions).filter Action.isQuiet = actions.filter Action.isQuiet :=
            List.filter_cons_of_neg (by simp [Action.isQuiet, hquiet])
          obtain ⟨hrun, hreplies⟩ := ih hafter hopened hsettled' hchanges huses
          rw [hfilter, replies, hreply]
          exact ⟨hrun, hreplies⟩
      | none =>
          obtain ⟨hafter, hreply⟩ := h.quiet hopened hsettled hquiet huse
          have hfilter : (action :: actions).filter Action.isQuiet =
              action :: actions.filter Action.isQuiet :=
            List.filter_cons_of_pos (by simp [Action.isQuiet, hquiet])
          obtain ⟨hrun, hreplies⟩ := ih hafter
            (hopened.of_step (hopened.toSettled.step action)) hsettled' hchanges huses
          rw [hfilter, replies, replies, hreply, hreplies]
          exact ⟨hrun, rfl⟩

end Alongside

/-- **Drives do not disturb each other.** In whatever state the drives are, a mount that fails changes
nothing. And as long as the player holds nothing but the disc of one drive, playing or not, the player and
its channel come out of whatever follows as if no other drive had been mounted or unmounted in it, with
the same sound and the same answers: that drive stays mounted, and so do those that are used. -/
theorem drives_apart (actions : List Action) :
    let r := empty.run actions
    (∀ lib n path e, (r.mount lib n path).1 = .error e → r.Unchanged (r.mount lib n path).2) ∧
    ∀ (a : Nat) (drive : Drive) (later : List Action), r.drive? a = some drive →
      (∀ p s, r.player = some p → p.segment = some s → s.medium = drive.medium) →
      (∀ action ∈ later, action.changes? ≠ some a) →
      (∀ action ∈ later, ∀ n ∈ action.uses?, ∀ other ∈ later, other.changes? ≠ some n) →
      let quiet := later.filter Action.isQuiet
      (r.run later).player = (r.run quiet).player ∧ (r.run later).mixer = (r.run quiet).mixer ∧
        r.replies later = r.replies quiet := by
  intro r
  have h : r.Opened := opened_run opened_empty actions
  refine ⟨fun lib n path e he => h.toSettled.unchanged_of_error he, ?_⟩
  intro a drive later hat hheld ha huses
  obtain ⟨p, hplayer⟩ := Option.isSome_iff_exists.mp (h.isSome_player hat)
  have hself : Alongside (fun n => ∀ action ∈ later, action.changes? ≠ some n) r r := by
    refine ⟨rfl, rfl, ⟨[], (Cursors.append_nil _).symm⟩, fun _ _ => rfl, fun s hs => ?_,
      a, drive, ha, hat⟩
    have hs' : p.segment = some s := by rwa [deck_of_player hplayer] at hs
    exact ⟨⟨a, drive, ha, hat, hheld p s hplayer hs'⟩, (h.sole_deck.holds s hs).2⟩
  obtain ⟨hrun, hreplies⟩ := hself.run h h.toSettled later
    (fun action haction n hn hkept => hkept action haction hn) huses
  exact ⟨hrun.player, hrun.mixer, hreplies⟩

/-- A disc plays in one drive, while another drive fails to get an image, gets one and loses it. -/
theorem drives_apart_playing :
    let lib := Library.ofStorage Sheet.twoFilesStorage
    let r := empty.run [.mount lib 0 "s", .use 0 (.play 0 2)]
    let later := [.pump 1, .mount lib 1 "missing", .mount lib 1 "s", .pump 588, .unmount 1, .drain,
      .use 0 .stop]
    let quiet := [.pump 1, .pump 588, .drain, .use 0 .stop]
    (∃ e, (r.mount lib 1 "missing").1 = .error e) ∧ r.Unchanged (r.mount lib 1 "missing").2 ∧
      r.player.map (·.playing) = some true ∧ (r.run later).player = (r.run quiet).player ∧
      (r.run later).mixer = (r.run quiet).mixer ∧ r.replies later = r.replies quiet := by
  intro lib r later quiet
  have hseen : ((r.mount lib 1 "missing").1.toOption.isSome, r.player.map (·.playing),
      (r.drive? 0).isSome, (r.player.bind (·.segment)).map (·.medium.id) ==
        (r.drive? 0).map (·.medium.id)) = (false, some true, true, true) := by
    decide +kernel
  simp only [Prod.mk.injEq, beq_iff_eq] at hseen
  obtain ⟨hfails, hplaying, hmounted, hid⟩ := hseen
  obtain ⟨drive, hat⟩ := Option.isSome_iff_exists.mp hmounted
  have hfailed : ∃ e, (r.mount lib 1 "missing").1 = .error e := by
    cases hmount : (r.mount lib 1 "missing").1 with
    | error e => exact ⟨e, rfl⟩
    | ok _ =>
        rw [hmount] at hfails
        cases hfails
  have hheld : ∀ p s, r.player = some p → p.segment = some s → s.medium = drive.medium := by
    intro p s hp hs
    have h : r.Settled := settled_run _
    have hdeck : r.deck.player.segment = some s := by rwa [deck_of_player hp]
    obtain ⟨⟨n, drive', hat', hmedium⟩, -⟩ := h.sole_deck.holds s hdeck
    have hsame : s.medium.id = drive.medium.id := by simpa [hp, hs, hat] using hid
    obtain rfl := h.distinct n 0 drive' drive hat' hat (hmedium ▸ hsame)
    rw [hmedium, Option.some.inj (hat'.symm.trans hat)]
  obtain ⟨hunchanged, hapart⟩ := drives_apart [.mount lib 0 "s", .use 0 (.play 0 2)]
  obtain ⟨e, he⟩ := hfailed
  obtain ⟨hplayer, hmixer, hreplies⟩ := hapart 0 drive later hat hheld
    (by simp [later, Action.changes?]) (by simp [later, Action.changes?, Action.uses?])
  exact ⟨⟨e, he⟩, hunchanged lib 1 "missing" e he, hplaying, hplayer, hmixer, hreplies⟩

end Registry

end CompactDisc
