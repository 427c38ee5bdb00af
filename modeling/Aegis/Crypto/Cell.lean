import Aegis.Lib.Buffer

/-!
# Cells (`cell.rs`)

Every message on a link is one cell of 512 bytes, whose first byte is a command.
-/

namespace Aegis

open Buffer

/-- The length of a cell. -/
def cellLen : ℕ := 512

theorem zero_lt_cellLen : 0 < cellLen := by decide

/-- A link-layer cell. -/
abbrev Cell := Bytes cellLen

/-- The role of a cell. -/
inductive Command where
  | create
  | extend
  | data
  /-- Cover, dropped inside the network. -/
  | drop
  /-- Loop cover. -/
  | loopToSelf
  /-- A fragment of a Sphinx packet. -/
  | sphinxFragment
  /-- Health gossip, which never enters reassembly. -/
  | peerHealthAdvert
  deriving DecidableEq, Repr

namespace Command

/-- The byte of a command. -/
def toU8 : Command → UInt8
  | create => 1
  | extend => 2
  | data => 3
  | drop => 4
  | loopToSelf => 5
  | sphinxFragment => 6
  | peerHealthAdvert => 7

/-- The command of a byte; `none` for the bytes that stand for none. -/
def fromU8 (b : UInt8) : Option Command :=
  match b with
  | 1 => some create
  | 2 => some extend
  | 3 => some data
  | 4 => some drop
  | 5 => some loopToSelf
  | 6 => some sphinxFragment
  | 7 => some peerHealthAdvert
  | _ => none

@[simp] theorem fromU8_toU8 (c : Command) : fromU8 c.toU8 = some c := by
  cases c <;> rfl

end Command

end Aegis
