import Fixtures.Text.Basic

/-! # Tables

A table is a list of keys with their values. The operations keep the keys of a
table in increasing order, so that two tables with the same entries are equal.
-/

namespace Fixtures

abbrev Table (α : Type) := List (Text × α)

namespace Table

variable {α : Type}

def get? (k : Text) : Table α → Option α
  | [] => none
  | (k', v) :: rest => if k = k' then some v else get? k rest

def contains (k : Text) (t : Table α) : Bool := (get? k t).isSome

def insert (k : Text) (v : α) : Table α → Table α
  | [] => [(k, v)]
  | (k', v') :: rest =>
    if k = k' then (k, v) :: rest
    else if k < k' then (k, v) :: (k', v') :: rest
    else (k', v') :: insert k v rest

def erase (k : Text) : Table α → Table α
  | [] => []
  | (k', v') :: rest => if k = k' then rest else (k', v') :: erase k rest

/-- The value at a key changed by `f`; nothing if there is none or `f` refuses it. -/
def modify? (k : Text) (f : α → Option α) : Table α → Option (Table α)
  | [] => none
  | (k', v') :: rest =>
    if k = k' then (f v').map fun v => (k', v) :: rest
    else (modify? k f rest).map ((k', v') :: ·)

/-- Enters all of `more`; an entry of `more` wins over an older one. -/
def merge (t more : Table α) : Table α := more.foldl (fun t e => t.insert e.1 e.2) t

def ofList (entries : List (Text × α)) : Table α := merge [] entries

def keys (t : Table α) : List Text := t.map (·.1)

/-- The keys increase, so no key comes twice. -/
def Sorted (t : Table α) : Prop := t.keys.Pairwise (· < ·)

end Table

end Fixtures
