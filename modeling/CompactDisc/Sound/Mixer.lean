import CompactDisc.Sound.Channel

/-!
# CompactDisc.Sound.Mixer

**A mixer that records**: its channels by number, and which of them are still connected.

A channel keeps its number and its state when it is disconnected, so that whoever still holds it can
look at it.
-/

namespace CompactDisc

/-- The channels of a mixer. -/
structure Mixer where
  /-- Every channel that was ever added, by number. -/
  channels : List Channel := []
  /-- The numbers of the channels that are connected, in the order of adding. -/
  connected : List Nat := []

namespace Mixer

/-- A mixer without channels. -/
def empty : Mixer := {}

/-- A mixer by default has no channels. -/
instance : Inhabited Mixer := ⟨empty⟩

/-- The channel with a number. -/
def get? (m : Mixer) (id : Nat) : Option Channel := m.channels[id]?

/-- Changes one channel. -/
def modify (m : Mixer) (id : Nat) (f : Channel → Channel) : Mixer :=
  { m with channels := m.channels.modify id f }

/-- Connects a new channel, which is disabled. -/
def add (m : Mixer) (name : String) (rate : Nat) : Nat × Mixer :=
  let id := m.channels.length
  (id, { channels := m.channels ++ [{ name, rate }], connected := m.connected ++ [id] })

/-- Disconnects a channel. -/
def remove (m : Mixer) (id : Nat) : Mixer :=
  { m with connected := m.connected.filter (· ≠ id) }

/-- Whether asking a channel for sound reaches its producer. -/
def pulls (m : Mixer) (id : Nat) : Bool := (m.get? id).any (·.enabled)

/-- Switches a channel on or off. -/
def enable (m : Mixer) (id : Nat) (on : Bool) : Mixer :=
  m.modify id fun c => { c with enabled := on }

/-- Sets the rate of a channel. -/
def setRate (m : Mixer) (id : Nat) (rate : Nat) : Mixer :=
  m.modify id fun c => { c with rate }

/-- Takes out what a channel has collected. -/
def drain (m : Mixer) (id : Nat) : List Int16 × Mixer :=
  (((m.get? id).map (·.drain.1)).getD [], m.modify id (·.drain.2))

/-- The channels that are connected. -/
def connectedChannels (m : Mixer) : List Channel := m.connected.filterMap m.get?

@[simp] theorem get?_modify_self (m : Mixer) (id : Nat) (f : Channel → Channel) :
    (m.modify id f).get? id = (m.get? id).map f := by
  simp [get?, modify]

@[simp] theorem get?_modify_ne (m : Mixer) {id id' : Nat} (f : Channel → Channel) (h : id ≠ id') :
    (m.modify id f).get? id' = m.get? id' := by
  simp [get?, modify, h]

@[simp] theorem connected_modify (m : Mixer) (id : Nat) (f : Channel → Channel) :
    (m.modify id f).connected = m.connected := rfl

/-- A new channel has the number it is given. -/
@[simp] theorem get?_add (m : Mixer) (name : String) (rate : Nat) :
    (m.add name rate).2.get? (m.add name rate).1 = some { name, rate } := by
  simp [get?, add]

end Mixer

end CompactDisc
