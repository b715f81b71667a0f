import CompactDisc.Drive.Letters
import CompactDisc.Proofs.Sound.Kept
import CompactDisc.Proofs.Sound.Separate

/-!
# CompactDisc.Proofs.Letters.Drives

**What can be done with the drives**, and what is in order among them: each letter has its place, no two
drives have the same medium, and all have the player that drives are given (`Registry.Filed`).

Each drive keeps the player that it was given, and players come and go, so that all drives have the same
one is not a matter of course. Where it holds, what is done with a drive is done on one deck
(`Registry.Filed.deckOf_drive`), and this deck is what the invariants speak of (`Deck.Sole`).
-/

namespace CompactDisc

/-! ### What can be done -/

/-- What can be done with a mounted drive. -/
inductive Use where
  | play (start length : UInt32)
  | pause (resume : Bool)
  | stop
  | control (volume map : Sides UInt8)
  | readSector (buffer : List UInt8) (raw : Bool) (sector : Nat)
  | readSectors (buffer : List UInt8) (raw : Bool) (sector count : Nat)

/-- The answer to a use, with the buffer if it is a read. -/
structure Use.Answer where
  result : Except DriveError Unit
  buffer : List UInt8 := []

/-- Uses a drive. -/
def Use.on (drive : Drive) (d : Deck) : Use → Use.Answer × Deck
  | .play start length =>
    let (result, d) := drive.play start.toNat length.toNat d
    ({ result }, d)
  | .pause resume => ({ result := .ok () }, d.pause resume)
  | .stop => ({ result := .ok () }, d.stop)
  | .control volume map => ({ result := .ok () }, d.control volume map)
  | .readSector buffer raw sector =>
    let (result, buffer, cursors) := drive.readSector buffer raw sector d.cursors
    ({ result, buffer }, { d with cursors })
  | .readSectors buffer raw sector count =>
    let (result, buffer, cursors) := drive.readSectors buffer raw sector count d.cursors
    ({ result, buffer }, { d with cursors })

namespace Registry

/-- What can happen to a registry. The files may be others each time something is mounted. -/
inductive Action where
  | mount (lib : Library) (n : Nat) (path : String)
  | unmount (n : Nat)
  | use (n : Nat) (u : Use)
  | pump (frames : Nat)
  | drain

/-- Uses the drive at a letter, if one is mounted. -/
def use (r : Registry) (n : Nat) (u : Use) : Option (Use.Answer × Registry) :=
  r.onDrive n fun drive d =>
    let (answer, d) := u.on drive d
    (answer, drive, d)

/-- Asks the player's channel for sound, and says whether it was on. -/
def pump (r : Registry) (frames : Nat) : Bool × Registry :=
  match r.shared with
  | none => (false, r)
  | some id =>
    let (on, d) := (r.deckOf id).pump frames
    (on, r.withDeckOf id d)

/-- Takes out what the player's channel has collected. -/
def drain (r : Registry) : List Int16 × Registry :=
  match r.shared with
  | none => ([], r)
  | some id =>
    let (samples, d) := (r.deckOf id).drain
    (samples, r.withDeckOf id d)

/-- The registry after an action. -/
def after (r : Registry) : Action → Registry
  | .mount lib n path => (r.mount lib n path).2
  | .unmount n => (r.unmount n).2
  | .use n u => (r.use n u).elim r (·.2)
  | .pump frames => (r.pump frames).2
  | .drain => r.drain.2

/-- The registry after actions in order. -/
def run (r : Registry) (actions : List Action) : Registry := actions.foldl after r

/-- A disc in a mounted drive. -/
def Mounts (r : Registry) (m : Medium) : Prop :=
  ∃ n drive, r.drive? n = some drive ∧ m = drive.medium

end Registry

/-- A deck whose channel is the only one that is connected, and that holds nothing but a disc of the
given kind. -/
structure Deck.Sole (d : Deck) (P : Medium → Prop) : Prop where
  channel : ∃ id c, d.player.channel = some id ∧ d.mixer.connected = [id] ∧
    d.mixer.get? id = some c
  holds : d.Holds P

namespace Registry

/-- The drives are in order: there is one for each letter, no two have the same medium, and all have the
player that drives are given. -/
structure Filed (r : Registry) : Prop where
  letters : r.drives.length = Letter.count
  media : ∀ m, r.Mounts m → m.id < r.media
  distinct : ∀ n n' drive drive', r.drive? n = some drive → r.drive? n' = some drive' →
    drive.medium.id = drive'.medium.id → n = n'
  made : ∀ id ∈ r.shared, id < r.players.length
  given : ∀ n drive, r.drive? n = some drive → r.shared = some drive.player

end Registry

/-! ### Decks -/

namespace Deck.Sole

variable {d e : Deck} {P Q : Medium → Prop}

/-- What an operation leaves alone is enough to keep the channel. -/
theorem of_keeps (h : d.Sole P) (hkeeps : d.Keeps e) (hholds : e.Holds Q) : e.Sole Q := by
  obtain ⟨id, c, hchannel, hconnected, hget⟩ := h.channel
  have hid : id < e.mixer.channels.length := by
    rw [hkeeps.channels]
    exact (List.getElem?_eq_some_iff.mp hget).choose
  exact ⟨⟨id, e.mixer.channels[id], hkeeps.channel.trans hchannel,
    hkeeps.connected.trans hconnected, List.getElem?_eq_getElem hid⟩, hholds⟩

/-- A disc that is released is not held any more. -/
theorem release (h : d.Sole P) (id : Nat) : (d.release id).Sole fun m => P m ∧ m.id ≠ id :=
  h.of_keeps (keeps_release d id) (h.holds.release id)

theorem mono (h : d.Sole P) (hPQ : ∀ m, P m → Q m) : d.Sole Q := ⟨h.channel, h.holds.mono hPQ⟩

end Deck.Sole

namespace Use

variable {drive : Drive} {d : Deck} {P : Medium → Prop}

theorem keeps (drive : Drive) (d : Deck) (u : Use) : d.Keeps (u.on drive d).2 := by
  cases u with
  | play start length => exact Deck.keeps_play d drive.medium start.toNat length.toNat
  | pause resume => exact Deck.keeps_pause d resume
  | stop => exact Deck.keeps_stop d
  | control volume map => exact Deck.keeps_control d volume map
  | readSector buffer raw sector => exact Deck.keeps_readSector d drive buffer raw sector
  | readSectors buffer raw sector count =>
      exact Deck.keeps_readSectors d drive buffer raw sector count

theorem holds (h : d.Holds P) (hdrive : P drive.medium) (u : Use) : (u.on drive d).2.Holds P := by
  cases u with
  | play start length => exact h.play hdrive start.toNat length.toNat
  | pause resume => exact h.pause resume
  | stop => exact h.stop
  | control volume map => exact h.control volume map
  | readSector buffer raw sector => exact h
  | readSectors buffer raw sector count => exact h

end Use

namespace Registry

variable {r : Registry} {n : Nat}

/-! ### Drives -/

/-- The drives after one of them was changed. -/
theorem drive?_of_set {r' : Registry} {x : Option Drive} (hn : n < r.drives.length)
    (h : r'.drives = r.drives.set n x) (m : Nat) :
    r'.drive? m = if m = n then x else r.drive? m := by
  unfold drive?
  rw [h, List.getElem?_set]
  by_cases hm : n = m
  · subst hm
    simp [hn]
  · simp [hm, Ne.symm hm]

theorem lt_of_drive? {drive : Drive} (h : r.drive? n = some drive) : n < r.drives.length :=
  (List.getElem?_eq_some_iff.mp (Option.join_eq_some_iff.mp h)).choose

theorem mounted_pos_iff : 0 < r.mounted ↔ ∃ n drive, r.drive? n = some drive := by
  simp only [mounted, List.countP_pos_iff, drive?, Option.join_eq_some_iff]
  constructor
  · rintro ⟨x, hx, hsome⟩
    obtain ⟨drive, rfl⟩ := Option.isSome_iff_exists.mp hsome
    obtain ⟨n, hn⟩ := List.mem_iff_getElem?.mp hx
    exact ⟨n, drive, hn⟩
  · rintro ⟨n, drive, hn⟩
    exact ⟨some drive, List.mem_of_getElem? hn, rfl⟩

/-! ### The deck that drives are given -/

theorem deck_of_shared {id : Nat} (h : r.shared = some id) : r.deck = r.deckOf id := by
  unfold deck sharedPlayer
  rw [h]

theorem withDeck_of_shared {id : Nat} (h : r.shared = some id) (d : Deck) :
    r.withDeck d = r.withDeckOf id d := by
  unfold withDeck sharedPlayer
  rw [h]

theorem deck_of_player {p : Player} (h : r.player = some p) :
    r.deck = { player := p, mixer := r.mixer, cursors := r.cursors, media := r.media } := by
  obtain ⟨id, hshared, hp⟩ := player_eq_some_iff.mp h
  rw [deck_of_shared hshared, deckOf, hp]
  rfl

/-- Where there is no player, one is brought with a new channel. -/
theorem deck_of_unshared (h : r.shared = none) :
    r.deck = {
      player := { channel := some r.mixer.channels.length }
      mixer := (r.mixer.add Deck.channelName RedBook.sampleRate).2
      cursors := r.cursors
      media := r.media } := by
  unfold deck sharedPlayer deckOf
  rw [h]
  dsimp only
  rw [List.getElem?_concat_length]
  rfl

theorem pump_of_player {p : Player} (h : r.player = some p) (frames : Nat) :
    r.pump frames = ((r.deck.pump frames).1, r.withDeck (r.deck.pump frames).2) := by
  obtain ⟨id, hshared, -⟩ := player_eq_some_iff.mp h
  rw [deck_of_shared hshared, withDeck_of_shared hshared]
  unfold pump
  rw [hshared]

theorem drain_of_player {p : Player} (h : r.player = some p) :
    r.drain = (r.deck.drain.1, r.withDeck r.deck.drain.2) := by
  obtain ⟨id, hshared, -⟩ := player_eq_some_iff.mp h
  rw [deck_of_shared hshared, withDeck_of_shared hshared]
  unfold drain
  rw [hshared]

@[simp] theorem cursors_deck (r : Registry) : r.deck.cursors = r.cursors := by
  unfold deck sharedPlayer
  split <;> rfl

@[simp] theorem media_deck (r : Registry) : r.deck.media = r.media := by
  unfold deck sharedPlayer
  split <;> rfl

/-- The deck is the same whatever is mounted. -/
theorem deck_drives (r : Registry) (drives : List (Option Drive)) :
    { r with drives : Registry }.deck = r.deck := by
  unfold deck sharedPlayer
  cases r.shared <;> rfl

@[simp] theorem drives_sharedPlayer (r : Registry) : r.sharedPlayer.2.drives = r.drives := by
  unfold sharedPlayer
  split <;> rfl

@[simp] theorem drives_withDeck (r : Registry) (d : Deck) : (r.withDeck d).drives = r.drives :=
  drives_sharedPlayer r

@[simp] theorem drive?_withDeck (r : Registry) (d : Deck) (n : Nat) :
    (r.withDeck d).drive? n = r.drive? n := by
  rw [drive?, drives_withDeck, drive?]

@[simp] theorem mounted_withDeck (r : Registry) (d : Deck) :
    (r.withDeck d).mounted = r.mounted := by
  rw [mounted, drives_withDeck, mounted]

/-- What is mounted depends on the drives alone. -/
theorem mounts_congr {r' : Registry} (h : ∀ n, r'.drive? n = r.drive? n) : r'.Mounts = r.Mounts := by
  unfold Mounts
  simp only [h]

theorem shared_withDeck (r : Registry) (d : Deck) :
    (r.withDeck d).shared = some r.sharedPlayer.1 := by
  unfold withDeck sharedPlayer
  cases h : r.shared with
  | none => rfl
  | some id => exact h

/-- The shared player stays, if there is one. -/
theorem sharedPlayer_of_shared {id : Nat} (h : r.shared = some id) : r.sharedPlayer = (id, r) := by
  rw [sharedPlayer, h]

/-- A drive that has the shared player is taken out of its deck. -/
theorem release_of_shared {drive : Drive} (h : r.shared = some drive.player) :
    r.release drive = r.withDeck (r.deck.release drive.medium.id) := by
  rw [release, deck_of_shared h, withDeck_of_shared h, Drive.remove]

/-- What was done with the deck before does not matter. -/
theorem withDeck_withDeck (r : Registry) (d e : Deck) : (r.withDeck d).withDeck e = r.withDeck e := by
  rw [withDeck_of_shared (shared_withDeck r d)]
  exact withDeckOf_withDeckOf d e

namespace Filed

/-- The player that drives are given has its place. -/
theorem sharedPlayer_lt (h : r.Filed) : r.sharedPlayer.1 < r.sharedPlayer.2.players.length := by
  cases hshared : r.shared with
  | none =>
      unfold sharedPlayer
      rw [hshared]
      dsimp only
      rw [List.length_append]
      exact Nat.lt_succ_self _
  | some id =>
      rw [sharedPlayer_of_shared hshared]
      exact h.made id hshared

theorem player_withDeck (h : r.Filed) (d : Deck) : (r.withDeck d).player = some d.player :=
  player_eq_some_iff.mpr ⟨_, shared_withDeck r d, List.getElem?_set_self h.sharedPlayer_lt⟩

/-- What is done with the deck is done. -/
theorem deck_withDeck (h : r.Filed) (d : Deck) : (r.withDeck d).deck = d :=
  deck_of_player (h.player_withDeck d)

theorem isSome_player (h : r.Filed) : r.player.isSome = r.shared.isSome := by
  cases hshared : r.shared with
  | none => rw [player, hshared]; rfl
  | some id =>
      have hget := List.getElem?_eq_getElem (h.made id hshared)
      rw [player_eq_some_iff.mpr ⟨id, hshared, hget⟩]
      rfl

theorem shared_of_no_player (h : r.Filed) (hnone : r.player = none) : r.shared = none := by
  have hsame := h.isSome_player
  rw [hnone] at hsame
  exact Option.not_isSome_iff_eq_none.mp (Bool.eq_false_iff.mp hsame.symm)

/-- The deck of a mounted drive is the one that drives are given. -/
theorem deckOf_drive (h : r.Filed) {drive : Drive} (hat : r.drive? n = some drive) :
    r.deckOf drive.player = r.deck :=
  (deck_of_shared (h.given n drive hat)).symm

/-- A use changes nothing but the deck. -/
theorem use_eq (h : r.Filed) (n : Nat) (u : Use) :
    r.use n u = (r.drive? n).map fun drive =>
      ((u.on drive r.deck).1, r.withDeck (u.on drive r.deck).2) := by
  unfold use onDrive
  cases hat : r.drive? n with
  | none => rfl
  | some drive =>
      have hsame : r.drives.set n (some drive) = r.drives := by
        obtain ⟨hn, hget⟩ := List.getElem?_eq_some_iff.mp (Option.join_eq_some_iff.mp hat)
        rw [← hget, List.set_getElem_self]
      simp only [Option.map_some, hsame, h.deckOf_drive hat, withDeck_of_shared (h.given n drive hat)]
      rfl

/-- New media leave the drives in order. -/
theorem withDeck (h : r.Filed) {d : Deck} (hmedia : r.media ≤ d.media) : (r.withDeck d).Filed where
  letters := by rw [drives_withDeck, h.letters]
  media m hm := by
    rw [mounts_congr (drive?_withDeck r d)] at hm
    exact Nat.lt_of_lt_of_le (h.media m hm) hmedia
  distinct := by
    simp only [drive?_withDeck]
    exact h.distinct
  made id hid := by
    rw [shared_withDeck] at hid
    obtain rfl := Option.some.inj hid
    exact Nat.lt_of_lt_of_eq h.sharedPlayer_lt (List.length_set ..).symm
  given n drive hat := by
    rw [drive?_withDeck] at hat
    rw [shared_withDeck, sharedPlayer_of_shared (h.given n drive hat)]

/-- A drive is emptied, or one is put into its place that has the player and a new medium. -/
theorem set (h : r.Filed) (hn : n < r.drives.length) {x : Option Drive}
    (hx : ∀ drive ∈ x, (∀ m, r.Mounts m → m.id ≠ drive.medium.id) ∧ drive.medium.id < r.media ∧
      r.shared = some drive.player) : Filed { r with drives := r.drives.set n x } := by
  have hcase (m : Nat) (drive : Drive)
      (hat : { r with drives := r.drives.set n x : Registry }.drive? m = some drive) :
      (m = n ∧ x = some drive) ∨ r.drive? m = some drive := by
    rw [drive?_of_set (r := r) hn rfl] at hat
    split at hat
    · exact Or.inl ⟨‹_›, hat⟩
    · exact Or.inr hat
  refine ⟨?_, ?_, ?_, h.made, ?_⟩
  · show (r.drives.set n x).length = _
    rw [List.length_set]
    exact h.letters
  · rintro _ ⟨m, drive, hat, rfl⟩
    rcases hcase m drive hat with ⟨-, hnew⟩ | hold
    · exact (hx drive hnew).2.1
    · exact h.media _ ⟨m, drive, hold, rfl⟩
  · intro m m' drive drive' hat hat' hid
    rcases hcase m drive hat with ⟨rfl, hnew⟩ | hold
    · rcases hcase m' drive' hat' with ⟨rfl, -⟩ | hold'
      · rfl
      · exact absurd hid.symm ((hx drive hnew).1 _ ⟨m', drive', hold', rfl⟩)
    · rcases hcase m' drive' hat' with ⟨rfl, hnew'⟩ | hold'
      · exact absurd hid ((hx drive' hnew').1 _ ⟨m, drive, hold, rfl⟩)
      · exact h.distinct m m' drive drive' hold hold' hid
  · intro m drive hat
    rcases hcase m drive hat with ⟨-, hnew⟩ | hold
    · exact (hx drive hnew).2.2
    · exact h.given m drive hold

end Filed

end Registry

end CompactDisc
