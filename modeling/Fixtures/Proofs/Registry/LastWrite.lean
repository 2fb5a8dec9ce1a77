import Fixtures.Proofs.Session.Run

/-!
# The last write wins

Handles come and go, and what they share is a storage. The values of a storage are
those of the writes that have reached it, through whatever handle, replayed from
nothing (`storage_run`); so a key has the value of the last write to it.
-/

namespace Fixtures

inductive Write
  | put (key value : Text)
  | erase (key : Text)
  | clear
  deriving DecidableEq

namespace Write

def apply (r : Registry) : Write → Registry
  | .put key value => Table.insert key value r
  | .erase key => Table.erase key r
  | .clear => []

/-- What a write leaves under a key, if it has to do with it. -/
def leaves? (key : Text) : Write → Option (Option Text)
  | .put k value => if k = key then some (some value) else none
  | .erase k => if k = key then some none else none
  | .clear => some none

/-- The value under a key after some writes: what the last one that has to do with the
key leaves. -/
def last? (key : Text) (ws : List Write) : Option Text := ((ws.filterMap (leaves? key)).getLast?).join

def replay (r : Registry) (ws : List Write) : Registry := ws.foldl apply r

variable {r : Registry} {w : Write} {ws : List Write} {key : Text}

theorem sorted_apply (h : r.Sorted) (w : Write) : (w.apply r).Sorted := by
  cases w with
  | put key value => exact Table.sorted_insert h key value
  | erase key => exact Table.sorted_erase h key
  | clear => exact Table.sorted_nil

theorem sorted_replay (h : r.Sorted) (ws : List Write) : (replay r ws).Sorted := by
  induction ws generalizing r with
  | nil => exact h
  | cons w ws ih => exact ih (sorted_apply h w)

theorem get?_apply (h : r.Sorted) (w : Write) (key : Text) :
    Table.get? key (w.apply r) = (w.leaves? key).getD (Table.get? key r) := by
  cases w with
  | put k value =>
    rw [apply, leaves?]
    split
    · rename_i hk
      rw [hk, Table.get?_insert_self, Option.getD_some]
    · rename_i hk
      rw [Table.get?_insert_ne (Ne.symm hk), Option.getD_none]
  | erase k =>
    rw [apply, leaves?]
    split
    · rename_i hk
      rw [hk, Table.get?_erase_self h, Option.getD_some]
    · rename_i hk
      rw [Table.get?_erase_ne (Ne.symm hk), Option.getD_none]
  | clear => rfl

theorem get?_replay (h : r.Sorted) (ws : List Write) (key : Text) :
    Table.get? key (replay r ws) =
      ((ws.filterMap (leaves? key)).getLast?).getD (Table.get? key r) := by
  induction ws generalizing r with
  | nil => rfl
  | cons w ws ih =>
    rw [replay, List.foldl_cons, ← replay, ih (sorted_apply h w), get?_apply h, List.filterMap_cons]
    cases hw : w.leaves? key with
    | none => rfl
    | some left => rw [List.getLast?_cons, Option.getD_some, Option.getD_some]

theorem get?_replay_nil (ws : List Write) (key : Text) :
    Table.get? key (replay [] ws) = last? key ws := by
  rw [get?_replay Table.sorted_nil, last?]
  cases (ws.filterMap (leaves? key)).getLast? with
  | none => rfl
  | some left => rfl

end Write

/-- The write that a capture comes to, and its handle; a capture that fails is none. -/
def Session.captured? (handle json path key : Text) : Option (Text × Write) :=
  match Captured.ofText json path with
  | .ok c => some (handle, .put key c.value)
  | .error _ => none

def Action.write? (s : Session) : Action → Option (Text × Write)
  | .set registry key value => some (registry, .put key value)
  | .remove registry key => some (registry, .erase key)
  | .clear registry => some (registry, .clear)
  | .capture registry json path key => Session.captured? registry json path key
  | .intercept registry step (some (path, key)) =>
    match (step.rewrite (s.resolver registry)).result with
    | .ok t => Session.captured? registry t.text path key
    | .error _ => none
  | _ => none

def Action.writeTo? (s : Session) (n : Nat) (a : Action) : Option Write :=
  match a.write? s with
  | some (handle, w) => if s.registries.number? handle = some n then some w else none
  | none => none

namespace Session

variable {s : Session} {a : Action}

def writes (n : Nat) : Session → List Action → List Write
  | _, [] => []
  | s, a :: as => (a.writeTo? s n).toList ++ writes n (s.perform a).session as

def storage (s : Session) (n : Nat) : Registry := s.registries.storage n []

/-! ## One action -/

theorem captureChange_of_some {handle registry json path key : Text} {w : Write}
    (h : captured? registry json path key = some (handle, w)) :
    captureChange registry json path key = .modify handle fun r => w.apply r := by
  rw [captured?] at h
  rw [captureChange]
  cases hc : Captured.ofText json path with
  | ok c =>
    rw [hc] at h
    cases h
    rfl
  | error e =>
    rw [hc] at h
    cases h

theorem captureChange_of_none {registry json path key : Text}
    (h : captured? registry json path key = none) :
    captureChange registry json path key = .stay := by
  rw [captured?] at h
  rw [captureChange]
  cases hc : Captured.ofText json path with
  | ok c =>
    rw [hc] at h
    cases h
  | error e => rfl

theorem onRegistries_of_write {handle : Text} {w : Write} (h : a.write? s = some (handle, w)) :
    a.onRegistries s = .modify handle fun r => w.apply r := by
  cases a with
  | set registry key value => cases h; rfl
  | remove registry key => cases h; rfl
  | clear registry => cases h; rfl
  | capture registry json path key => exact captureChange_of_some h
  | intercept registry step target =>
    cases target with
    | none => cases h
    | some target =>
      rw [Action.write?] at h
      rw [Action.onRegistries]
      cases hr : (step.rewrite (s.resolver registry)).result with
      | ok t =>
        rw [hr] at h
        exact captureChange_of_some h
      | error e =>
        rw [hr] at h
        cases h
  | _ => cases h

theorem storage_of_no_write (h : a.write? s = none) (n : Nat) :
    (s.perform a).session.storage n = s.storage n := by
  rw [storage, registries_perform]
  cases a with
  | newRegistry handle => exact Shared.storage_create handle [] _ n
  | shareRegistry source handle => exact Shared.storage_share source handle _ n []
  | set registry key value => cases h
  | remove registry key => cases h
  | clear registry => cases h
  | capture registry json path key =>
    rw [Action.onRegistries, captureChange_of_none h]
    rfl
  | intercept registry step target =>
    cases target with
    | none => rfl
    | some target =>
      rw [Action.write?] at h
      rw [Action.onRegistries]
      cases hr : (step.rewrite (s.resolver registry)).result with
      | ok t =>
        rw [hr] at h
        dsimp only
        rw [captureChange_of_none h]
        rfl
      | error e => rfl
  | _ => rfl

theorem storage_perform (hs : s.registries.Orderly) (a : Action) (n : Nat) :
    (s.perform a).session.storage n = Write.replay (s.storage n) (a.writeTo? s n).toList := by
  cases hw : a.write? s with
  | none =>
    rw [storage_of_no_write hw, Action.writeTo?, hw]
    rfl
  | some write =>
    obtain ⟨handle, w⟩ := write
    rw [storage, registries_perform, onRegistries_of_write hw, Shared.Change.apply,
      hs.storage_modify, Action.writeTo?, hw]
    dsimp only
    split <;> rfl

/-! ## Runs -/

theorem orderly_run (hs : s.registries.Orderly) (as : List Action) : (s.run as).registries.Orderly := by
  apply run_invariant (P := fun s => s.registries.Orderly) _ hs
  intro s a h
  rw [registries_perform]
  exact h.apply _

theorem storage_run (hs : s.registries.Orderly) (as : List Action) (n : Nat) :
    (s.run as).storage n = Write.replay (s.storage n) (s.writes n as) := by
  induction as generalizing s with
  | nil => rfl
  | cons a as ih =>
    have horderly : (s.perform a).session.registries.Orderly := by
      rw [registries_perform]
      exact hs.apply _
    rw [run_cons, ih horderly, storage_perform hs, writes, Write.replay, Write.replay,
      Write.replay, List.foldl_append]

/-! ## What a handle shows -/

/-- What a handle shows of its storage, if the keys there have these values. Setting and
removing a key show the value from before. -/
structure Shows (s : Session) (handle : Text) (value : Text → Option Text) : Prop where
  get : ∀ key, (s.perform (.get handle key)).outcome = .value (value key)
  set : ∀ key v, (s.perform (.set handle key v)).outcome = .value (value key)
  remove : ∀ key, (s.perform (.remove handle key)).outcome = .value (value key)
  contains : ∀ key, (s.perform (.contains handle key)).outcome = .flag (value key).isSome
  size : ∃ keys : List Text, keys.Nodup ∧ (∀ key, key ∈ keys ↔ (value key).isSome) ∧
    (s.perform (.size handle)).outcome = .size keys.length
  empty : (s.perform (.size handle)).outcome = .size 0 ↔ ∀ key, value key = none
  snapshot : ∃ r : Registry, (∀ r', (handle, r') ∈ s.registries.view ↔ r' = r) ∧ r.keys.Nodup ∧
    ∀ key v, (key, v) ∈ r ↔ value key = some v

theorem registry_eq_storage {handle : Text} {n : Nat} (hn : s.registries.number? handle = some n) :
    s.registry handle = s.storage n := by
  rw [registry, Shared.storage_eq_getD hn, storage]

theorem shows_registry {handle : Text} {n : Nat} (hs : s.registries.Orderly)
    (hn : s.registries.number? handle = some n) (hsorted : (s.registry handle).Sorted) :
    s.Shows handle fun key => Table.get? key (s.registry handle) := by
  refine ⟨fun _ => rfl, fun _ _ => rfl, fun _ => rfl, fun _ => rfl, ?_, ?_, ?_⟩
  · refine ⟨(s.registry handle).keys, hsorted.nodup, fun key => Table.mem_keys_iff hsorted, ?_⟩
    rw [Table.keys, List.length_map]
    rfl
  · have hempty : (s.perform (.size handle)).outcome = .size 0 ↔ s.registry handle = [] := by
      rw [← List.length_eq_zero_iff]
      exact ⟨fun h => Outcome.size.inj h, congrArg Outcome.size⟩
    rw [hempty]
    constructor
    · intro h key
      rw [h]
      rfl
    · intro h
      exact Table.ext hsorted Table.sorted_nil h
  · obtain ⟨r, -, hr⟩ := hs.get?_isSome hn
    have hregistry : s.registry handle = r := by rw [registry, hr, Option.getD_some]
    refine ⟨r, fun r' => ?_, ?_, ?_⟩
    · rw [hs.mem_view_iff, hr, Option.some.injEq]
      exact eq_comm
    · rw [← hregistry]
      exact hsorted.nodup
    · intro key v
      rw [hregistry]
      exact Table.mem_iff_get? (hregistry ▸ hsorted)

end Session

/-! ## Other storages -/

def Action.binds? : Action → Option Text
  | .newRegistry handle => some handle
  | .shareRegistry _ handle => some handle
  | .shareGlobalRegistry handle => some handle
  | _ => none

def Action.through? : Action → Option Text
  | .set registry _ _ => some registry
  | .remove registry _ => some registry
  | .clear registry => some registry
  | .capture registry _ _ _ => some registry
  | .intercept registry _ _ => some registry
  | _ => none

namespace Session

variable {s : Session} {a : Action} {handle : Text} {n : Nat}

theorem through?_of_captured? {registry json path key : Text} {w : Write}
    (h : captured? registry json path key = some (handle, w)) : registry = handle := by
  rw [captured?] at h
  split at h
  · cases h
    rfl
  · cases h

theorem through?_of_write? {w : Write} (h : a.write? s = some (handle, w)) :
    a.through? = some handle := by
  cases a with
  | set registry key value => cases h; rfl
  | remove registry key => cases h; rfl
  | clear registry => cases h; rfl
  | capture registry json path key => exact congrArg some (through?_of_captured? h)
  | intercept registry step target =>
    cases target with
    | none => cases h
    | some target =>
      rw [Action.write?] at h
      split at h
      · exact congrArg some (through?_of_captured? h)
      · cases h
  | _ => cases h

theorem number?_captureChange (r : Shared Registry) (registry json path key handle : Text) :
    ((captureChange registry json path key).apply r).number? handle = r.number? handle := by
  rw [captureChange]
  split
  · rw [Shared.Change.apply, Shared.number?, Shared.handles_modify]
    rfl
  · rfl

theorem number?_perform (h : a.binds? ≠ some handle) :
    (s.perform a).session.registries.number? handle = s.registries.number? handle := by
  have hinsert {other : Text} (hne : some other ≠ some handle) (m : Nat) :
      Table.get? handle (Table.insert other m s.registries.handles) =
        Table.get? handle s.registries.handles :=
    Table.get?_insert_ne (fun he => hne (congrArg some he.symm)) m _
  rw [registries_perform]
  cases a with
  | newRegistry other => exact hinsert h _
  | shareRegistry source other =>
    rw [Action.onRegistries, Shared.Change.apply, Shared.share]
    split
    · exact hinsert h _
    · rfl
  | shareGlobalRegistry other => exact hinsert h _
  | set registry key value =>
    rw [Action.onRegistries, Shared.Change.apply, Shared.number?, Shared.handles_modify]
    rfl
  | remove registry key =>
    rw [Action.onRegistries, Shared.Change.apply, Shared.number?, Shared.handles_modify]
    rfl
  | clear registry =>
    rw [Action.onRegistries, Shared.Change.apply, Shared.number?, Shared.handles_modify]
    rfl
  | capture registry json path key => exact number?_captureChange _ _ _ _ _ _
  | intercept registry step target =>
    cases target with
    | none => rfl
    | some target =>
      rw [Action.onRegistries]
      split
      · exact number?_captureChange _ _ _ _ _ _
      · rfl
  | _ => rfl

theorem registry_perform_apart (hs : s.registries.Orderly) (hn : s.registries.number? handle = some n)
    (hbinds : a.binds? ≠ some handle)
    (hthrough : ∀ r, a.through? = some r → s.registries.number? r ≠ some n) :
    (s.perform a).session.registry handle = s.registry handle := by
  have hwrite : a.writeTo? s n = none := by
    rw [Action.writeTo?]
    cases hw : a.write? s with
    | none => rfl
    | some write => exact if_neg (hthrough write.1 (through?_of_write? hw))
  rw [registry_eq_storage ((number?_perform hbinds).trans hn), registry_eq_storage hn,
    storage_perform hs, hwrite]
  rfl

/-- **The last write wins.** After any run of actions, a handle shows under each key what
the last write to its storage left there, if it was a set or a capture of that key and
not a removal of it or of everything. Actions through handles on other storages change
nothing of what it shows, and neither does a capture that fails. -/
theorem shows_last_write (s : Session) (as : List Action) :
    let start : Session := { s with registries := .start [] }
    let now := start.run as
    (∀ handle n, now.registries.number? handle = some n →
      now.Shows handle (fun key => Write.last? key (start.writes n as)) ∧
      ∀ a : Action, a.binds? ≠ some handle →
        (∀ r, a.through? = some r → now.registries.number? r ≠ some n) →
          (now.perform a).session.registry handle = now.registry handle) ∧
    ∀ handle json path key f, (now.perform (.capture handle json path key)).outcome = .failed f →
      (now.perform (.capture handle json path key)).session = now := by
  intro start now
  have hstart : start.registries.Orderly := Shared.orderly_start []
  have hnow : now.registries.Orderly := orderly_run hstart as
  refine ⟨fun handle n hn => ⟨?_, fun a => registry_perform_apart hnow hn⟩,
    fun handle json path key f => session_capture_of_failed⟩
  have hempty : start.storage n = [] := by cases n <;> rfl
  have hregistry : now.registry handle = Write.replay [] (start.writes n as) := by
    rw [registry_eq_storage hn, storage_run hstart as n, hempty]
  have hsorted : (now.registry handle).Sorted := by
    rw [hregistry]
    exact Write.sorted_replay Table.sorted_nil _
  have hshows := shows_registry hnow hn hsorted
  simp only [hregistry, Write.get?_replay_nil] at hshows
  exact hshows

def unshared : Session where
  properties := ⟨[], []⟩
  interfaces := []
  limit := 1
  registries := Shared.start []
  logs := Shared.start []
  settings := ⟨['r'], 1, []⟩
  files := fun _ => .error .notFound

def sharedWrites : List Action :=
  [.newRegistry ['a'], .shareRegistry ['a'] ['b'], .newRegistry ['c'], .set ['a'] ['k'] ['1'],
    .set ['c'] ['k'] ['2'], .capture ['b'] ['[', '3', ']'] ['[', '0', ']'] ['k'],
    .remove ['c'] ['k'], .capture ['a'] ['['] [] ['k']]

theorem shows_sharedWrites :
    ((unshared.run sharedWrites).perform (.get ['a'] ['k'])).outcome = .value (some ['3']) ∧
      ((unshared.run sharedWrites).perform (.set ['c'] ['k'] ['4'])).outcome = .value none ∧
      ((unshared.run sharedWrites).perform (.clear ['b'])).session.registry ['c'] =
        (unshared.run sharedWrites).registry ['c'] ∧
      ((unshared.run sharedWrites).perform (.capture ['a'] ['{'] [] ['k'])).session =
        unshared.run sharedWrites := by
  obtain ⟨hhandles, hfailed⟩ := shows_last_write unshared sharedWrites
  have ha := (hhandles ['a'] 1 rfl).1.get ['k']
  obtain ⟨hshows, hapart⟩ := hhandles ['c'] 2 rfl
  refine ⟨ha, hshows.set ['k'] ['4'], hapart (.clear ['b']) nofun ?_, hfailed _ _ _ _ _ rfl⟩
  intro r hr hn
  cases hr
  exact absurd hn (by decide)

end Session

end Fixtures
