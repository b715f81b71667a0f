import CompactDisc.Proofs.Letters.Apart
import CompactDisc.Proofs.Sound.Session

/-!
# CompactDisc.Proofs.Drive.Replaced

**Putting another disc into a drive is all or nothing.** Several drives may share a player, and discs may
be played that are in none of them any more. A disc that cannot be loaded, as a sheet or as an image,
leaves the drive, the player and the output as they are. One that can be loaded takes the place of the
old disc, which is forgotten by the player; if the player holds another disc, it goes on as if nothing had
happened (`Tower.insert_all_or_nothing`).

Proof shape: a tower is everything that shares a player, and a step is one thing that can be done with it.
Each step keeps all discs that were ever made known, and the player holds one of them
(`Tower.Ordered.of_step`). So the new disc is held by nobody, and the sources of the one that is held stay
where they are.
-/

namespace CompactDisc

/-- A disc fails to load only if it does both as a sheet and as a bare image. -/
theorem Disc.load_error_iff {lib : Library} {path : String} {cursors : Cursors} {e : DriveError} :
    Disc.load lib path cursors = .error e ↔ ∃ sheet volume, e = .load path sheet volume ∧
      Sheet.load lib.storage lib.resolver path cursors = .error sheet ∧
      Volume.load lib.storage path cursors = .error volume := by
  unfold Disc.load
  cases Sheet.load lib.storage lib.resolver path cursors with
  | ok loaded => simp
  | error sheet =>
      cases Volume.load lib.storage path cursors with
      | ok loaded => simp
      | error volume => simp [eq_comm]

/-! ### A disc that is exchanged -/

namespace Deck

variable {d : Deck} {id : Nat}

/-- The deck on which more sources were opened for a new medium, and the old one was released. -/
def exchange (d : Deck) (more : List Nat) (id : Nat) : Deck :=
  { ({ d with cursors := d.cursors.append more } : Deck).release id with media := d.media + 1 }

theorem length_exchange (d : Deck) (more : List Nat) (id : Nat) :
    (d.exchange more id).cursors.positions.length = (d.cursors.append more).positions.length :=
  (keeps_release { d with cursors := d.cursors.append more } id).opened

theorem Holds.exchange {P : Medium → Prop} (h : d.Holds P) (more : List Nat) (id : Nat) :
    (d.exchange more id).Holds P := by
  have hholds : ({ d with cursors := d.cursors.append more } : Deck).Holds P := h
  exact (hholds.release id).mono fun _ hm => hm.1

/-- A disc that is exchanged while it is held is stopped and forgotten. -/
theorem exchange_of_held (h : d.held? = some id) (more : List Nat) :
    (d.exchange more id).player =
        { d.player with segment := none, playing := false, paused := false } ∧
      (d.exchange more id).channel? = d.channel?.map fun c => { c with enabled := false } := by
  have hheld : ({ d with cursors := d.cursors.append more } : Deck).held? = some id := h
  unfold exchange
  rw [release_of_held hheld]
  constructor
  · rw [player_stop]
  · exact channel?_stop { d with cursors := d.cursors.append more }

/-- Otherwise there are no more than other sources. -/
theorem exchange_of_other (h : d.held? ≠ some id) (more : List Nat) :
    d.exchange more id = d.beside more (d.media + 1) := by
  have hother : ({ d with cursors := d.cursors.append more } : Deck).held? ≠ some id := h
  unfold exchange
  rw [release_of_other hother]
  rfl

/-- Exchanging a disc leaves the positions on all others. -/
theorem position_exchange {other : Nat} (hne : other ≠ id) (more : List Nat) :
    (d.exchange more id).position other = d.position other := by
  by_cases hheld : d.held? = some id
  · have hforgotten : (d.exchange more id).held? = none := by
      rw [held?, (exchange_of_held hheld more).1]
      rfl
    rw [position_of_other, position_of_other]
    · rw [hheld]
      exact fun h => hne (Option.some.inj h).symm
    · rw [hforgotten]
      exact (Option.some_ne_none other).symm
  · rw [exchange_of_other hheld]
    rfl

/-- There is no position on a disc that was exchanged. -/
theorem position_exchange_self (more : List Nat) : (d.exchange more id).position id = none := by
  refine position_of_other ?_
  by_cases hheld : d.held? = some id
  · rw [held?, (exchange_of_held hheld more).1]
    exact (Option.some_ne_none id).symm
  · rw [exchange_of_other hheld]
    exact hheld

/-- Pumps do the same beside other sources. -/
theorem pumps_beside (more : List Nat) (media : Nat) (h : d.Holds fun m => m.disc.OpenIn d.cursors)
    (ns : List Nat) : (d.beside more media).pumps ns = (d.pumps ns).beside more media := by
  induction ns generalizing d with
  | nil => rfl
  | cons n ns ih =>
      have hopened := (keeps_pump d n).opened
      have hnext : (d.pump n).2.Holds fun m => m.disc.OpenIn (d.pump n).2.cursors :=
        (h.pump n).mono fun m hm => hm.of_le (Nat.le_of_eq hopened.symm)
      show ((d.beside more media).pump n).2.pumps ns = _
      rw [pump_beside more media h]
      exact ih hnext

end Deck

namespace Drive

variable {drive : Drive} {lib : Library} {path : String} {d : Deck}

theorem insert_of_load_error {e : DriveError} (h : Disc.load lib path d.cursors = .error e) :
    drive.insert lib path d = (.error e, drive, d) := by
  rw [insert, h]

/-- A disc that was loaded is put into the drive as a new medium. -/
theorem insert_of_load_ok {disc : Disc} {more : List Nat}
    (h : Disc.load lib path d.cursors = .ok (disc, d.cursors.append more)) :
    drive.insert lib path d =
      (.ok (), { drive with medium := ⟨d.media, disc⟩ }, d.exchange more drive.medium.id) := by
  have hmedia := (Deck.keeps_release { d with cursors := d.cursors.append more } drive.medium.id).media
  rw [insert, h, Deck.exchange]
  dsimp only
  rw [hmedia]

end Drive

/-! ### Drives that share a player -/

/-- Drives that share a player, and every medium that was ever made. -/
structure Tower where
  deck : Deck
  drives : List Drive := []
  made : List Medium := []

namespace Tower

/-- A new drive without a disc. -/
def add (r : Tower) : Tower :=
  let (drive, deck) := Drive.blank r.deck
  { deck, drives := r.drives ++ [drive], made := drive.medium :: r.made }

/-- A drive is to get the disc at `path`. -/
def insert (r : Tower) (n : Nat) (drive : Drive) (lib : Library) (path : String) : Tower :=
  let (_, drive, deck) := drive.insert lib path r.deck
  { deck, drives := r.drives.set n drive, made := drive.medium :: r.made }

/-- A drive goes. -/
def remove (r : Tower) (n : Nat) (drive : Drive) : Tower :=
  { r with deck := drive.remove r.deck, drives := r.drives.eraseIdx n }

/-- A drive is used. -/
def use (r : Tower) (drive : Drive) (u : Use) : Tower := { r with deck := (u.on drive r.deck).2 }

/-- A disc is made without a drive, from sources that are opened for it or were open before. -/
def make (r : Tower) (disc : Disc) (more : List Nat) : Tower :=
  { r with
    deck := { r.deck with cursors := r.deck.cursors.append more, media := r.deck.media + 1 }
    made := ⟨r.deck.media, disc⟩ :: r.made }

/-- The player itself is asked. -/
def call (r : Tower) (c : Call) : Tower := { r with deck := (Session.after ⟨r.deck, none⟩ c).deck }

/-- The output is asked for sound. -/
def pump (r : Tower) (frames : Nat) : Tower := { r with deck := (r.deck.pump frames).2 }

/-- What was collected is taken out. -/
def drain (r : Tower) : Tower := { r with deck := r.deck.drain.2 }

/-- What the player can be asked: to play a disc that was made. No source is ever closed. -/
def Allows (r : Tower) : Call → Prop
  | .play medium _ _ => medium ∈ r.made
  | .elsewhere cursors => r.deck.cursors.positions.length ≤ cursors.positions.length
  | _ => True

/-- What can be done. -/
inductive Step (r : Tower) : Tower → Prop
  | add : r.Step r.add
  | insert {n : Nat} {drive : Drive} (hat : r.drives[n]? = some drive) (lib : Library) (path : String) :
    r.Step (r.insert n drive lib path)
  | remove {n : Nat} {drive : Drive} (hat : r.drives[n]? = some drive) : r.Step (r.remove n drive)
  | use {drive : Drive} (hdrive : drive ∈ r.drives) (u : Use) : r.Step (r.use drive u)
  | make {disc : Disc} {more : List Nat} (hopen : disc.OpenIn (r.deck.cursors.append more)) :
    r.Step (r.make disc more)
  | call {c : Call} (hallows : r.Allows c) : r.Step (r.call c)
  | pump (frames : Nat) : r.Step (r.pump frames)
  | drain : r.Step r.drain

/-- What can come about, from a player with or without output. -/
inductive Reachable : Tower → Prop
  | attached : Reachable { deck := .attached }
  | detached : Reachable { deck := .detached }
  | step {r r' : Tower} (h : Reachable r) (hstep : r.Step r') : Reachable r'

/-- Every medium was made and has its sources open, no two drives have the same, and the player holds
none but one of them. -/
structure Ordered (r : Tower) : Prop where
  known : ∀ m ∈ r.made, m.id < r.deck.media ∧ m.disc.OpenIn r.deck.cursors
  fitted : ∀ drive ∈ r.drives, drive.medium ∈ r.made
  distinct : (r.drives.map fun drive => drive.medium.id).Nodup
  held : r.deck.Holds (· ∈ r.made)

namespace Ordered

variable {r : Tower}

theorem id_lt (h : r.Ordered) {drive : Drive} (hdrive : drive ∈ r.drives) :
    drive.medium.id < r.deck.media := (h.known _ (h.fitted drive hdrive)).1

/-- Two drives never have the same medium. -/
theorem id_ne (h : r.Ordered) {n n' : Nat} {drive drive' : Drive} (hat : r.drives[n]? = some drive)
    (hat' : r.drives[n']? = some drive') (hne : n ≠ n') : drive.medium.id ≠ drive'.medium.id := by
  intro hid
  refine hne ((List.getElem?_inj ?_ h.distinct).mp ?_)
  · rw [List.length_map]
    exact (List.getElem?_eq_some_iff.mp hat).choose
  · rw [List.getElem?_map, List.getElem?_map, hat, hat']
    exact congrArg some hid

/-- The medium that is made next is not held. -/
theorem held?_ne (h : r.Ordered) : r.deck.held? ≠ some r.deck.media :=
  h.held.held?_ne fun m hm => Nat.ne_of_lt (h.known m hm).1

/-- Only the deck changes. -/
theorem withDeck (h : r.Ordered) {d : Deck} (hmedia : r.deck.media ≤ d.media)
    (hopened : r.deck.cursors.positions.length ≤ d.cursors.positions.length)
    (hholds : d.Holds (· ∈ r.made)) : Ordered { r with deck := d } where
  known m hm := ⟨Nat.lt_of_lt_of_le (h.known m hm).1 hmedia, (h.known m hm).2.of_le hopened⟩
  fitted := h.fitted
  distinct := h.distinct
  held := hholds

/-- The deck changes by an operation of the player. -/
theorem of_keeps (h : r.Ordered) {d : Deck} (hkeeps : r.deck.Keeps d)
    (hholds : d.Holds (· ∈ r.made)) : Ordered { r with deck := d } :=
  h.withDeck (Nat.le_of_eq hkeeps.media.symm) (Nat.le_of_eq hkeeps.opened.symm) hholds

/-- A medium is made, or one that is there is counted again. -/
theorem withMedium (h : r.Ordered) {m : Medium} (hid : m.id < r.deck.media)
    (hopen : m.disc.OpenIn r.deck.cursors) : Ordered { r with made := m :: r.made } where
  known m' hm' := by
    rcases List.mem_cons.mp hm' with rfl | hm'
    · exact ⟨hid, hopen⟩
    · exact h.known m' hm'
  fitted drive hdrive := List.mem_cons_of_mem _ (h.fitted drive hdrive)
  distinct := h.distinct
  held := h.held.mono fun _ => List.mem_cons_of_mem _

/-- The drives are rearranged. -/
theorem withDrives (h : r.Ordered) {drives : List Drive}
    (hfitted : ∀ drive ∈ drives, drive.medium ∈ r.made)
    (hdistinct : (drives.map fun drive => drive.medium.id).Nodup) :
    Ordered { r with drives } where
  known := h.known
  fitted := hfitted
  distinct := hdistinct
  held := h.held

theorem attached : Ordered { deck := .attached } := ⟨nofun, nofun, List.nodup_nil, nofun⟩

theorem detached : Ordered { deck := .detached } := ⟨nofun, nofun, List.nodup_nil, nofun⟩

/-- A medium is made with the next identity, and more sources may be open. -/
theorem withNew (h : r.Ordered) {d : Deck} {disc : Disc} (hmedia : d.media = r.deck.media + 1)
    (hopened : r.deck.cursors.positions.length ≤ d.cursors.positions.length)
    (hopen : disc.OpenIn d.cursors) (hholds : d.Holds (· ∈ r.made)) :
    Ordered { r with deck := d, made := ⟨r.deck.media, disc⟩ :: r.made } := by
  have hlt : r.deck.media < d.media := by omega
  exact (h.withDeck (Nat.le_of_lt hlt) hopened hholds).withMedium hlt hopen

theorem add (h : r.Ordered) : r.add.Ordered := by
  have hblank : Disc.blank.OpenIn r.deck.cursors := by
    intro t ht
    cases ht
  have hnew := h.withNew (d := (Drive.blank r.deck).2) rfl (Nat.le_refl _) hblank h.held
  refine hnew.withDrives (fun drive hdrive => ?_) ?_
  · rcases List.mem_append.mp hdrive with hold | hnew
    · exact List.mem_cons_of_mem _ (h.fitted drive hold)
    · rw [List.mem_singleton.mp hnew]
      exact List.mem_cons_self
  · -- the identity of the new drive is above all others
    rw [List.map_append, List.nodup_append]
    refine ⟨h.distinct, List.nodup_singleton _, fun id hid id' hid' => ?_⟩
    obtain ⟨drive, hdrive, rfl⟩ := List.mem_map.mp hid
    rw [List.mem_singleton.mp hid']
    exact Nat.ne_of_lt (h.id_lt hdrive)

theorem insert (h : r.Ordered) {n : Nat} {drive : Drive} (hat : r.drives[n]? = some drive)
    (lib : Library) (path : String) : (r.insert n drive lib path).Ordered := by
  have hdrive : drive ∈ r.drives := List.mem_of_getElem? hat
  unfold Tower.insert
  cases hload : Disc.load lib path r.deck.cursors with
  | error e =>
      rw [Drive.insert_of_load_error hload]
      have hsame : r.drives.set n drive = r.drives := by
        obtain ⟨hn, rfl⟩ := List.getElem?_eq_some_iff.mp hat
        exact List.set_getElem_self hn
      dsimp only
      rw [hsame]
      exact h.withMedium (h.id_lt hdrive) (h.known _ (h.fitted drive hdrive)).2
  | ok loaded =>
      obtain ⟨disc, opened⟩ := loaded
      obtain ⟨⟨more, rfl⟩, hopen⟩ := Disc.load_opens hload
      rw [Drive.insert_of_load_ok hload]
      have hlength := Deck.length_exchange r.deck more drive.medium.id
      have hnew : Ordered { r with
          deck := r.deck.exchange more drive.medium.id, made := ⟨r.deck.media, disc⟩ :: r.made } := by
        refine h.withNew rfl ?_ (hopen.of_le (Nat.le_of_eq hlength.symm)) (h.held.exchange more _)
        rw [hlength]
        exact Cursors.length_le_append _ more
      refine hnew.withDrives (fun other hother => ?_) ?_
      · rcases List.mem_or_eq_of_mem_set hother with hold | rfl
        · exact List.mem_cons_of_mem _ (h.fitted other hold)
        · exact List.mem_cons_self
      · rw [List.map_set]
        refine h.distinct.set fun hmem => ?_
        obtain ⟨other, hother, hid⟩ := List.mem_map.mp hmem
        exact absurd hid (Nat.ne_of_lt (h.id_lt hother))

theorem remove (h : r.Ordered) (n : Nat) (drive : Drive) : (r.remove n drive).Ordered := by
  have hdeck := h.of_keeps (Deck.keeps_release r.deck drive.medium.id)
    ((h.held.release drive.medium.id).mono fun _ hm => hm.1)
  refine hdeck.withDrives (fun drive hdrive => ?_) ?_
  · exact h.fitted drive (List.mem_of_mem_eraseIdx hdrive)
  · exact h.distinct.sublist ((List.eraseIdx_sublist _ _).map _)

theorem make (h : r.Ordered) {disc : Disc} {more : List Nat}
    (hopen : disc.OpenIn (r.deck.cursors.append more)) : (r.make disc more).Ordered :=
  h.withNew rfl (Cursors.length_le_append _ more) hopen h.held

theorem call (h : r.Ordered) {c : Call} (hallows : r.Allows c) : (r.call c).Ordered := by
  cases c with
  | play medium start length =>
      have hdeck : (Session.after ⟨r.deck, none⟩ (.play medium start length)).deck =
          (r.deck.play medium start.toNat length.toNat).2 := by
        unfold Session.after
        dsimp only
        split <;> simp_all
      rw [Tower.call, hdeck]
      exact h.of_keeps (Deck.keeps_play _ _ _ _) (h.held.play hallows _ _)
  | pause resume => exact h.of_keeps (Deck.keeps_pause _ resume) (h.held.pause resume)
  | stop => exact h.of_keeps (Deck.keeps_stop _) h.held.stop
  | release id =>
      exact h.of_keeps (Deck.keeps_release _ id) ((h.held.release id).mono fun _ hm => hm.1)
  | control volume map => exact h.of_keeps (Deck.keeps_control _ volume map) (h.held.control volume map)
  | pull frames => exact h.of_keeps (Deck.keeps_pull _ frames) (h.held.pull frames)
  | elsewhere cursors => exact h.withDeck (Nat.le_refl _) hallows h.held

/-- Whatever is done leaves everything in order. -/
theorem of_step (h : r.Ordered) {r' : Tower} (hstep : r.Step r') : r'.Ordered := by
  cases hstep with
  | add => exact h.add
  | insert hat lib path => exact h.insert hat lib path
  | remove hat => exact h.remove _ _
  | use hdrive u =>
      exact h.of_keeps (Use.keeps _ r.deck u) (Use.holds h.held (h.fitted _ hdrive) u)
  | make hopen => exact h.make hopen
  | call hallows => exact h.call hallows
  | pump frames => exact h.of_keeps (Deck.keeps_pump r.deck frames) (h.held.pump frames)
  | drain => exact h.of_keeps (Deck.keeps_drain r.deck) h.held.drain

end Ordered

theorem Reachable.ordered {r : Tower} (h : r.Reachable) : r.Ordered := by
  induction h with
  | attached => exact .attached
  | detached => exact .detached
  | step _ hstep ih => exact ih.of_step hstep

/-- **All or nothing.** Whatever was done before with some drives that share a player: if a disc cannot be
put into a drive, then because the path can be loaded neither as a sheet nor as a bare image, and drive and
deck are what they were, so that everything goes on as if nothing had been asked. If it can, the drive has
the disc of the sheet, or else of the image, as a medium that was never there before, and there is no
position on it nor on the old one. If the player held the old disc, it is stopped and has forgotten it, and
nothing else about the output has changed. If it did not, player and output are what they were, and all
pumps bring the same. The positions of all other drives stay. -/
theorem insert_all_or_nothing {r : Tower} (h : r.Reachable) {n : Nat} {drive : Drive}
    (hat : r.drives[n]? = some drive) (lib : Library) (path : String) :
    let d := r.deck
    let answer := drive.insert lib path d
    (∀ e, answer.1 = .error e →
      (∃ sheet volume, e = .load path sheet volume ∧
        Sheet.load lib.storage lib.resolver path d.cursors = .error sheet ∧
        Volume.load lib.storage path d.cursors = .error volume) ∧
      answer.2 = (drive, d)) ∧
    (answer.1 = .ok () → ∃ new after opened, answer.2 = (new, after) ∧
      (Sheet.load lib.storage lib.resolver path d.cursors = .ok (new.disc, opened) ∨
        (∃ sheet, Sheet.load lib.storage lib.resolver path d.cursors = .error sheet) ∧
          Volume.load lib.storage path d.cursors = .ok (new.disc, opened)) ∧
      (∀ m ∈ r.made, m.id ≠ new.medium.id) ∧
      drive.position after = none ∧ new.position after = none ∧
      (d.held? = some drive.medium.id →
        after.player = { d.player with segment := none, playing := false, paused := false } ∧
        after.channel? = d.channel?.map fun c => { c with enabled := false }) ∧
      (d.held? ≠ some drive.medium.id →
        after.player = d.player ∧ after.mixer = d.mixer ∧
        ∀ ns, (after.pumps ns).player = (d.pumps ns).player ∧
          (after.pumps ns).mixer = (d.pumps ns).mixer) ∧
      ∀ n' other, n' ≠ n → r.drives[n']? = some other →
        other.position after = other.position d) := by
  intro d answer
  have hr := h.ordered
  cases hload : Disc.load lib path d.cursors with
  | error e =>
      have hanswer : answer = (.error e, drive, d) := Drive.insert_of_load_error hload
      rw [hanswer]
      refine ⟨fun e' he => ?_, nofun⟩
      obtain rfl := Except.error.inj he
      exact ⟨Disc.load_error_iff.mp hload, rfl⟩
  | ok loaded =>
      obtain ⟨disc, opened⟩ := loaded
      obtain ⟨⟨more, rfl⟩, -⟩ := Disc.load_opens hload
      have hanswer : answer = (.ok (), { drive with medium := ⟨d.media, disc⟩ },
          d.exchange more drive.medium.id) := Drive.insert_of_load_ok hload
      have hold : drive.medium.id ≠ d.media :=
        Nat.ne_of_lt (hr.id_lt (List.mem_of_getElem? hat))
      have hnew : d.position d.media = none := Deck.position_of_other hr.held?_ne
      rw [hanswer]
      refine ⟨fun e he => ?_, fun _ => ?_⟩
      · cases he
      refine ⟨{ drive with medium := ⟨d.media, disc⟩ }, d.exchange more drive.medium.id,
        d.cursors.append more, rfl, Disc.load_ok_iff.mp hload, ?_, ?_, ?_, ?_, ?_, ?_⟩
      · exact fun m hm => Nat.ne_of_lt (hr.known m hm).1
      · exact Deck.position_exchange_self more
      · exact (Deck.position_exchange hold.symm more).trans hnew
      · exact fun hheld => Deck.exchange_of_held hheld more
      · intro hheld
        have hopen : d.Holds fun m => m.disc.OpenIn d.cursors :=
          hr.held.mono fun m hm => (hr.known m hm).2
        rw [Deck.exchange_of_other hheld]
        refine ⟨rfl, rfl, fun ns => ?_⟩
        rw [Deck.pumps_beside more _ hopen]
        exact ⟨rfl, rfl⟩
      · intro n' other hne hat'
        exact Deck.position_exchange (hr.id_ne hat' hat hne) more

/-! ### A drive that plays, and an empty one -/

/-- A file system with a sheet of two tracks. -/
def lib : Library := .ofStorage Sheet.twoFilesStorage

/-- A drive that has got the disc of the sheet, and its player. -/
def loaded : Drive × Deck :=
  ((Drive.blank .attached).1.insert lib "s" (Drive.blank .attached).2).2

/-- The drive plays, and another comes. -/
def playing : Tower :=
  (((({ deck := .attached } : Tower).add.insert 0 (Drive.blank .attached).1 lib "s").use loaded.1
    (.play 0 2)).pump 1).add

theorem reachable_playing : playing.Reachable := by
  have hadded : ({ deck := .attached } : Tower).add.Reachable := .step .attached .add
  have hloaded := hadded.step (.insert (n := 0) rfl lib "s")
  exact ((hloaded.step (.use List.mem_cons_self (.play 0 2))).step (.pump 1)).step .add

/-- A path where nothing is found changes nothing. A disc in the drive that plays stops it; a disc in the
other drive does not. -/
theorem insert_all_or_nothing_playing :
    playing.Reachable ∧ playing.deck.player.playing = true ∧
    (loaded.1.insert lib "missing" playing.deck).2 = (loaded.1, playing.deck) ∧
    (loaded.1.insert lib "s" playing.deck).2.2.player.playing = false ∧
    ∃ empty, playing.drives[1]? = some empty ∧
      (empty.insert lib "s" playing.deck).2.2.player = playing.deck.player := by
  have hplays : playing.deck.player.playing = true ∧
      playing.deck.held? = some loaded.1.medium.id := by
    decide +kernel
  have hmissing : (loaded.1.insert lib "missing" playing.deck).1.toOption = none := by
    decide +kernel
  have hfound : (loaded.1.insert lib "s" playing.deck).1.toOption = some () := by
    decide +kernel
  have hempty : playing.drives[1]?.map (fun empty => (playing.deck.held? != some empty.medium.id,
      (empty.insert lib "s" playing.deck).1.toOption)) = some (true, some ()) := by
    decide +kernel
  obtain ⟨empty, hat, hempty⟩ := Option.map_eq_some_iff.mp hempty
  simp only [Prod.mk.injEq, bne_iff_ne, toOption_eq_some_iff] at hempty
  have hfull : playing.drives[0]? = some loaded.1 := rfl
  have hmine := insert_all_or_nothing reachable_playing hfull lib
  refine ⟨reachable_playing, hplays.1, ?_, ?_, empty, hat, ?_⟩
  · cases hanswer : (loaded.1.insert lib "missing" playing.deck).1 with
    | error e => exact ((hmine "missing").1 e hanswer).2
    | ok _ =>
        rw [hanswer] at hmissing
        cases hmissing
  · obtain ⟨new, after, -, hanswer, -, -, -, -, hstops, -⟩ :=
      (hmine "s").2 (toOption_eq_some_iff.mp hfound)
    rw [hanswer, (hstops hplays.2).1]
  · obtain ⟨new, after, -, hanswer, -, -, -, -, -, hgoes, -⟩ :=
      (insert_all_or_nothing reachable_playing hat lib "s").2 hempty.2
    rw [hanswer]
    exact (hgoes hempty.1).1

end Tower

end CompactDisc
