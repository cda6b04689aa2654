import Stackwright.FileTree
import Stackwright.Machine.Basic

/-!
# Loading

A program can be loaded as a whole, which starts afresh, or word by word, which
goes on where the last word went. Both are possible until the first instruction is
executed.
-/

namespace Stackwright.Machine

/-- Whether a program may be loaded: no instruction has been executed. -/
def Loadable (m : Machine) : Prop := m.status = .constructed ∨ m.status = .loaded

instance (m : Machine) : Decidable m.Loadable := inferInstanceAs (Decidable (_ ∨ _))

/-- Go on only if a program may be loaded. -/
def checkLoadable : Control Unit := do
  let m ← get
  if ¬m.Loadable then throw (.invalidState .load m.status)

/-- Put a word into the cell at an address. Without such a cell, a program of this size
is too large. -/
def store (size : Nat) (address word : Word) : Control Unit := do
  let m ← get
  match m.memory.write address word with
  | .error _ => throw (.programTooLarge size m.capacity)
  | .ok memory => set { m with memory }

/-- Put the words of a program of this size into the cells from an address on. -/
def storeFrom (size : Nat) (address : Nat) : List Word → Control Unit
  | [] => return
  | word :: rest => do
    store size (Word.ofNat address) word
    storeFrom size (address + 1) rest

/-- Load a program to address zero. Everything that was loaded before is gone. -/
def load (program : List Word) : Control Unit := do
  checkLoadable
  let m ← get
  if m.capacity < program.length then throw (.programTooLarge program.length m.capacity)
  modify reset
  storeFrom program.length 0 program
  modify fun m => { m with loaded := program.length, status := .loaded }

/-- Append one word to what is loaded. -/
def loadWord (word : Word) : Control Unit := do
  checkLoadable
  let m ← get
  let size := m.loaded + 1
  if m.capacity ≤ m.loaded then throw (.programTooLarge size m.capacity)
  match Word.ofInt? m.loaded with
  | none => throw (.programTooLarge size m.capacity)
  | some address =>
    store size address word
    modify fun m => { m with loaded := size, status := .loaded }

/-- Load a program in image format. The image is read before anything else is
looked at. -/
def loadImage (feed : Feed) : Control Unit :=
  match Image.read feed with
  | .error e => throw (.image e)
  | .ok program => load program

/-- Load an image file. -/
def loadFile (files : FileTree) (path : String) : Control Unit :=
  match files.read path with
  | .error e => throw (.fileOpen path e)
  | .ok stream => loadImage stream.feed

end Stackwright.Machine
