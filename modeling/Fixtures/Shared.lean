import Fixtures.Table

/-! # Shared storages

A handle is a name for a storage, and several handles may share one. Storages
are numbered in the order in which they are made; the first is the global one.
-/

namespace Fixtures

structure Shared (α : Type) where
  /-- the number of the storage of each handle -/
  handles : Table Nat
  storages : List α

namespace Shared

variable {α : Type}

/-- One global storage without a handle. -/
def start (global : α) : Shared α := ⟨[], [global]⟩

def get? (handle : Text) (s : Shared α) : Option α :=
  (Table.get? handle s.handles).bind (s.storages[·]?)

def global? (s : Shared α) : Option α := s.storages.head?

/-- Changes the storage of a handle; without a storage nothing changes. -/
def modify (handle : Text) (f : α → α) (s : Shared α) : Shared α :=
  match Table.get? handle s.handles with
  | some n => { s with storages := s.storages.modify n f }
  | none => s

def create (handle : Text) (a : α) (s : Shared α) : Shared α :=
  ⟨Table.insert handle s.storages.length s.handles, s.storages ++ [a]⟩

def share (source handle : Text) (s : Shared α) : Shared α :=
  match Table.get? source s.handles with
  | some n => { s with handles := Table.insert handle n s.handles }
  | none => s

/-- A handle on the global storage. -/
def shareGlobal (handle : Text) (s : Shared α) : Shared α :=
  { s with handles := Table.insert handle 0 s.handles }

def view (s : Shared α) : List (Text × α) :=
  s.handles.filterMap fun h => (s.storages[h.2]?).map fun a => (h.1, a)

end Shared

end Fixtures
