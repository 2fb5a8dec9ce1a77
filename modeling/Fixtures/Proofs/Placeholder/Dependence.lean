import Fixtures.Proofs.Placeholder.Unlimited
import Fixtures.Proofs.Registry.Capture

/-!
# What a resolution depends on

Which placeholders a resolution meets is decided by the values it has found so
far. So sources that give the same values for the placeholders it looks up lead it
past the same placeholders (`Sources.serve_congr`). A lookup in turn reads one item
of the sources at most, and all other items may change.
-/

namespace Fixtures

inductive Item
  | property (name : Text)
  | stored (key : Text)
  | addresses (interface : Text)
  deriving DecidableEq, Repr

def Placeholder.item? (p : Placeholder) : Option Item :=
  match p.domain with
  | .property => some (.property p.token)
  | .stored => some (.stored p.token)
  | .code => if p.token = "IP".toList then p.modifier.map .addresses else none

def Run.Reads {α : Type} (r : Run α) (i : Item) : Prop :=
  ∃ l ∈ r.lookups, l.placeholder.item? = some i

namespace Sources

variable {s s' : Sources} {limit left : Nat} {d : Domain} {t : Text} {p : Placeholder}

/-- What two sources have under an item is the same. -/
def Agree (s s' : Sources) : Item → Prop
  | .property name => s'.property name = s.property name
  | .stored key => s'.stored key = s.stored key
  | .addresses interface => s'.addresses interface = s.addresses interface

theorem lookup_congr (h : ∀ i, p.item? = some i → s.Agree s' i) : s'.lookup p = s.lookup p := by
  obtain ⟨d, token, modifier⟩ := p
  cases d with
  | property =>
    have hp : s'.property token = s.property token := h (.property token) rfl
    simp only [lookup, hp]
  | stored =>
    have hk : s'.stored token = s.stored token := h (.stored token) rfl
    simp only [lookup, hk]
  | code =>
    cases modifier with
    | none => rfl
    | some argument =>
      simp only [lookup]
      split
      · rename_i htoken
        have ha : s'.addresses argument = s.addresses argument :=
          h (.addresses argument) (by simp only [Placeholder.item?, if_pos htoken, Option.map_some])
        simp only [ipv4, ha]
      · rfl

theorem spend_congr {α : Type} {o : Occurrence} {go go' : Nat → Text → Run α}
    (h : ∀ l ∈ (s.spend limit o go left).lookups, s'.lookup l.placeholder = s.lookup l.placeholder)
    (hgo : ∀ l u, l < left →
      (∀ k ∈ (go l u).lookups, s'.lookup k.placeholder = s.lookup k.placeholder) → go' l u = go l u) :
    s'.spend limit o go' left = s.spend limit o go left := by
  cases left with
  | zero => rfl
  | succ left =>
    have hlookup : s'.lookup o.placeholder = s.lookup o.placeholder := by
      simp only [spend] at h
      cases hv : s.lookup o.placeholder with
      | error e =>
        simp only [hv] at h
        exact (h _ List.mem_cons_self).trans hv
      | ok v =>
        simp only [hv] at h
        exact (h _ List.mem_cons_self).trans hv
    simp only [spend, hlookup]
    cases hv : s.lookup o.placeholder with
    | error e => rfl
    | ok v =>
      simp only [spend, hv] at h
      simp only [hgo left _ (Nat.lt_succ_self left) fun k hk => h k (List.mem_cons_of_mem _ hk)]

theorem serve_congr (h : ∀ l ∈ (s.serve limit d left t).lookups,
    s'.lookup l.placeholder = s.lookup l.placeholder) :
    s'.serve limit d left t = s.serve limit d left t := by
  -- on what is left of the limit: the run after a lookup has less
  induction left using Nat.strongRecOn generalizing d t with
  | ind left ih =>
    rw [serve_eq] at h
    rw [serve_eq, serve_eq]
    cases hn : Occurrence.next? t (d.onward ++ Domain.all) with
    | error e => rfl
    | ok r =>
      cases r with
      | none => rfl
      | some o =>
        simp only [hn] at h
        exact spend_congr h fun l u hl => ih l hl

theorem resolve_congr (h : ∀ l ∈ (s.resolve limit t).lookups,
    s'.lookup l.placeholder = s.lookup l.placeholder) :
    s'.resolve limit t = s.resolve limit t := by
  rw [resolve_eq_serve] at h ⊢
  rw [resolve_eq_serve]
  exact serve_congr h

theorem resolve_congr_of_agree (h : ∀ i, (s.resolve limit t).Reads i → s.Agree s' i) :
    s'.resolve limit t = s.resolve limit t :=
  resolve_congr fun l hl => lookup_congr fun i hi => h i ⟨l, hl, hi⟩

end Sources

/-! ## Sessions -/

/-- The item that an action may write or remove, where it changes nothing else
that is looked up. -/
def Action.item? : Action → Option Item
  | .setProperty name _ => some (.property name)
  | .set _ key _ => some (.stored key)
  | .remove _ key => some (.stored key)
  | .capture _ _ _ key => some (.stored key)
  | _ => none

theorem Properties.get?_set_ne {name other value : Text} (h : other ≠ name) (p : Properties) :
    (p.set name value).get? other = p.get? other := by
  simp only [get?, set, Table.get?_insert_ne h]

namespace Session

variable {s : Session} {a : Action} {i j : Item} {registry handle key other : Text}

theorem stored_modify {f : Registry → Registry}
    (hf : Table.get? other (f (s.registry registry)) = Table.get? other (s.registry registry)) :
    Table.get? other (((s.registries.modify registry f).get? handle).getD []) =
      Table.get? other (s.registry handle) := by
  rw [Shared.get?_modify]
  split
  · rename_i hsame
    have hshared := Shared.get?_eq_of_same hsame
    -- `Session.registry` reads a handle on nothing as an empty registry
    cases hr : s.registries.get? registry with
    | none => rw [Session.registry, hshared, hr, Option.map_none]
    | some r =>
      rw [Session.registry, hr, Option.getD_some] at hf
      rw [Session.registry, hshared, hr, Option.map_some, Option.getD_some, hf, Option.getD_some]
  · rfl

theorem agree_of_stored {registries : Shared Registry}
    (h : ∀ other, other ≠ key → Table.get? other ((registries.get? handle).getD []) =
      Table.get? other (s.registry handle)) (hj : j ≠ .stored key) :
    (s.sources handle).Agree ({ s with registries := registries : Session }.sources handle) j := by
  cases j with
  | property name => rfl
  | addresses interface => rfl
  | stored other => exact h other fun e => hj (congrArg Item.stored e)

theorem agree_perform (ha : a.item? = some i) (hj : j ≠ i) (handle : Text) :
    (s.sources handle).Agree ((s.perform a).session.sources handle) j := by
  cases a with
  | setProperty name value =>
    cases ha
    cases j with
    | property other =>
      exact Properties.get?_set_ne (fun e => hj (congrArg Item.property e)) s.properties
    | stored key => rfl
    | addresses interface => rfl
  | set registry key value =>
    cases ha
    exact agree_of_stored (fun _ hne => stored_modify (Table.get?_insert_ne hne value _)) hj
  | remove registry key =>
    cases ha
    exact agree_of_stored (fun _ hne => stored_modify (Table.get?_erase_ne hne _)) hj
  | capture registry json path key =>
    cases ha
    cases hc : Captured.ofText json path with
    | error e =>
      have hsame : (s.perform (.capture registry json path key)).session = s := by
        rw [perform, capture_of_error hc, answer]
      rw [hsame]
      cases j <;> rfl
    | ok c =>
      have hstored : (s.perform (.capture registry json path key)).session =
          { s with registries := s.registries.modify registry fun _ =>
              Table.insert key c.value (s.registry registry) } := by
        rw [perform, capture_of_ok hc]
      rw [hstored]
      exact agree_of_stored (fun _ hne => stored_modify (Table.get?_insert_ne hne c.value _)) hj
  | _ => cases ha

theorem limit_perform (ha : a.item? = some i) : (s.perform a).session.limit = s.limit := by
  cases a with
  | capture registry json path key =>
    rw [perform, capture]
    split <;> rfl
  | _ => first | rfl | cases ha

theorem resolver_perform {t : Text} (ha : a.item? = some i)
    (hi : ¬ (s.resolver handle t).Reads i) :
    (s.perform a).session.resolver handle t = s.resolver handle t := by
  rw [resolver, resolver, limit_perform ha]
  apply Sources.resolve_congr_of_agree
  intro j hj
  exact agree_perform ha (fun e => hi (e ▸ hj)) handle

end Session

/-- **A resolution depends only on what it looks up.** Sources that give the same
for every placeholder that is looked up make the whole run the same, with its
lookups and its result. So it does not matter what they have under an item that
the run does not read, and an action that writes or removes such an item changes
no result. -/
theorem resolve_depends :
    (∀ (s s' : Sources) (limit : Nat) (t : Text),
      (∀ l ∈ (s.resolve limit t).lookups, s'.lookup l.placeholder = s.lookup l.placeholder) →
        s'.resolve limit t = s.resolve limit t) ∧
    (∀ (s s' : Sources) (limit : Nat) (t : Text),
      (∀ i, (s.resolve limit t).Reads i → s.Agree s' i) →
        s'.resolve limit t = s.resolve limit t) ∧
    ∀ (s : Session) (handle t : Text) (a : Action) (i : Item), a.item? = some i →
      ¬ (s.resolver handle t).Reads i →
        (s.perform a).session.resolver handle t = s.resolver handle t :=
  ⟨fun _ _ _ _ => Sources.resolve_congr, fun _ _ _ _ => Sources.resolve_congr_of_agree,
    fun _ _ _ _ _ => Session.resolver_perform⟩

def sharing : Session where
  properties := ⟨[(['a'], ['!', '{', 'k', '}'])], []⟩
  interfaces := []
  limit := 3
  registries :=
    ((Shared.start []).create ['m'] [(['k'], ['v']), (['z'], ['w'])]).share ['m'] ['n']
  logs := Shared.start []
  settings := ⟨['r'], 1, []⟩
  files := fun _ => .error .notFound

def justThese : Sources where
  property n := if n = ['a'] then some ['!', '{', 'k', '}'] else none
  stored k := if k = ['k'] then some ['v'] else none
  addresses _ := none

theorem resolve_sharing :
    justThese.resolve 3 ['$', '{', 'a', '}'] = (sharing.sources ['m']).resolve 3 ['$', '{', 'a', '}'] ∧
      Sources.resolve { sharing.sources ['m'] with addresses := fun _ => some [] } 3
          ['$', '{', 'a', '}'] =
        (sharing.sources ['m']).resolve 3 ['$', '{', 'a', '}'] ∧
      (sharing.perform (.set ['n'] ['z'] [])).session.resolver ['m'] ['$', '{', 'a', '}'] =
        sharing.resolver ['m'] ['$', '{', 'a', '}'] ∧
      (sharing.resolver ['m'] ['$', '{', 'a', '}']).result = .ok ['v'] := by
  have hends : (sharing.sources ['m']).Ends .property ['$', '{', 'a', '}'] _ (.ok ['v']) :=
    .filled rfl rfl (.filled rfl rfl (.clear rfl))
  have hrun := hends.resolve 3 (by decide)
  have hreads (i : Item) (hi : (sharing.resolver ['m'] ['$', '{', 'a', '}']).Reads i) :
      i = .property ['a'] ∨ i = .stored ['k'] := by
    rw [Session.resolver, show sharing.limit = 3 from rfl, hrun] at hi
    obtain ⟨l, hl, hli⟩ := hi
    simp only [List.mem_cons, List.not_mem_nil, or_false] at hl
    rcases hl with rfl | rfl
    · exact .inl (Option.some.inj hli).symm
    · exact .inr (Option.some.inj hli).symm
  obtain ⟨hlookups, hitems, hperform⟩ := resolve_depends
  refine ⟨hlookups _ _ _ _ ?_, hitems _ _ _ _ ?_, hperform _ _ _ _ (.stored ['z']) rfl ?_,
    congrArg Run.result hrun⟩
  · rw [hrun]
    intro l hl
    simp only [List.mem_cons, List.not_mem_nil, or_false] at hl
    rcases hl with rfl | rfl <;> rfl
  · intro i hi
    rcases hreads i hi with rfl | rfl <;> rfl
  · intro hz
    rcases hreads _ hz with h | h <;> cases h

end Fixtures
