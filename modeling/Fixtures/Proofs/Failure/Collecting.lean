import Fixtures.Proofs.Placeholder.Unlimited
import Fixtures.Proofs.Session.Run
import Mathlib.Data.List.DropRight

/-!
# Collecting runs

A list of steps is worked off one by one: what can be rewritten is dispatched, and
what cannot is recorded. Each step is rewritten with what the dispatches before it have
left (`rewritings`), and that alone decides what becomes of it.

What is in a log is a matter of what has been done to its storage, by this or in any
other way: `Runs` says so for all that can be done, and the log has what has been
recorded since it was last emptied.
-/

namespace Fixtures

namespace Session

section
variable {α : Type} (dispatch : Session → Step → Handed α) (handle log : Text)

def collectEach (s : Session) : List Step → Handed (List (Option α))
  | [] => ⟨s, [], []⟩
  | step :: rest =>
    let first := s.collectWith dispatch handle log step
    let more := collectEach first.session rest
    ⟨more.session, first.notes ++ more.notes, first.value :: more.value⟩

/-- What the rewriting of each step comes to when its turn has come. -/
def rewritings (s : Session) : List Step → List (Except ResolutionError Step)
  | [] => []
  | step :: rest =>
    (step.rewrite (s.resolver handle)).result ::
      rewritings (s.collectWith dispatch handle log step).session rest

def meet (s : Session) : Except ResolutionError Step → Session
  | .ok t => (dispatch s t).session
  | .error e => (s.record log (.resolution e)).session

def handedBack (s : Session) : Except ResolutionError Step → Option α
  | .ok t => some (dispatch s t).value
  | .error _ => none

variable {dispatch handle log} {s : Session}

theorem session_collectWith_eq_meet (s : Session) (step : Step) :
    (s.collectWith dispatch handle log step).session =
      s.meet dispatch log (step.rewrite (s.resolver handle)).result := by
  rw [session_collectWith]
  cases (step.rewrite (s.resolver handle)).result with
  | ok t => rfl
  | error e => rfl

theorem value_collectWith (s : Session) (step : Step) :
    (s.collectWith dispatch handle log step).value =
      s.handedBack dispatch (step.rewrite (s.resolver handle)).result := by
  rw [collectWith]
  cases (step.rewrite (s.resolver handle)).result with
  | ok t => rfl
  | error e => rfl

theorem session_collectEach (s : Session) (steps : List Step) :
    (s.collectEach dispatch handle log steps).session =
      (s.rewritings dispatch handle log steps).foldl (meet dispatch log) s := by
  induction steps generalizing s with
  | nil => rfl
  | cons step rest ih =>
    rw [collectEach, rewritings, List.foldl_cons, ← session_collectWith_eq_meet]
    exact ih _

theorem rewritings_getElem? (s : Session) (steps : List Step) (i : Nat) :
    (s.rewritings dispatch handle log steps)[i]? = steps[i]?.map fun step =>
      (step.rewrite ((s.collectEach dispatch handle log (steps.take i)).session.resolver
        handle)).result := by
  induction steps generalizing s i with
  | nil => rfl
  | cons step rest ih =>
    cases i with
    | zero => rfl
    | succ i =>
      rw [rewritings, List.getElem?_cons_succ, List.getElem?_cons_succ, ih]
      rfl

theorem value_collectEach (s : Session) (steps : List Step) (i : Nat) :
    (s.collectEach dispatch handle log steps).value[i]? =
      (s.rewritings dispatch handle log steps)[i]?.map
        ((s.collectEach dispatch handle log (steps.take i)).session.handedBack dispatch) := by
  induction steps generalizing s i with
  | nil => rfl
  | cons step rest ih =>
    cases i with
    | zero => exact congrArg some (value_collectWith s step)
    | succ i =>
      rw [rewritings, collectEach, List.getElem?_cons_succ, List.getElem?_cons_succ, ih]
      rfl

end

/-! ## What happens to logs -/

def failures (rs : List (Except ResolutionError Step)) : List Failure :=
  rs.filterMap fun
    | .ok _ => none
    | .error e => some (.resolution e)

end Session

/-- What happens to the storage of a log. A handle that is none stands on no storage. -/
inductive LogEvent
  | recorded (storage : Option Nat) (f : Failure)
  | cleared (storage : Option Nat)
  | drained (storage : Option Nat) (fs : List Failure)

namespace LogEvent

variable {n : Nat} {e : LogEvent} {es : List LogEvent}

def recorded? (n : Nat) : LogEvent → Option Failure
  | .recorded m f => if m = some n then some f else none
  | _ => none

def drained? (n : Nat) : LogEvent → Option (List Failure)
  | .drained m fs => if m = some n then some fs else none
  | _ => none

def empties (n : Nat) : LogEvent → Bool
  | .recorded _ _ => false
  | .cleared m => m == some n
  | .drained m _ => m == some n

/-- The failures recorded in a storage since it was last emptied, oldest first. -/
def held (n : Nat) (es : List LogEvent) : List Failure :=
  (es.rtakeWhile fun e => !e.empties n).filterMap (recorded? n)

theorem held_concat (n : Nat) (es : List LogEvent) (e : LogEvent) :
    held n (es ++ [e]) = if e.empties n then [] else held n es ++ (e.recorded? n).toList := by
  rw [held, List.rtakeWhile_concat]
  cases e.empties n with
  | true => rfl
  | false =>
    simp only [Bool.not_false, if_true, List.filterMap_append, held]
    cases he : e.recorded? n with
    | none => simp [he]
    | some f => simp [he]

def Drains (es : List LogEvent) : Prop :=
  ∀ n before fs after, es = before ++ .drained (some n) fs :: after → fs = held n before

theorem Drains.concat (h : Drains es) (he : ∀ n fs, e = .drained (some n) fs → fs = held n es) :
    Drains (es ++ [e]) := by
  intro n before fs after heq
  rcases List.eq_nil_or_concat after with rfl | ⟨after, last, rfl⟩
  · obtain ⟨rfl, hlast⟩ := List.append_inj' heq rfl
    exact he n fs (List.cons.inj hlast).1
  · rw [List.concat_eq_append, ← List.cons_append, ← List.append_assoc] at heq
    exact h n before fs after (List.append_inj' heq rfl).1

theorem Drains.of_concat (h : Drains (es ++ [e])) : Drains es := by
  rintro n before fs after rfl
  exact h n before fs (after ++ [e]) (by rw [List.append_assoc, List.cons_append])

theorem Drains.sublist (h : Drains es) (n : Nat) :
    ((es.filterMap (drained? n)).flatten ++ held n es).Sublist (es.filterMap (recorded? n)) := by
  induction es using List.reverseRecOn with
  | nil => exact List.Sublist.refl _
  | append_singleton es e ih =>
    have ih := ih h.of_concat
    have hone {β : Type} (f : LogEvent → Option β) : [e].filterMap f = (f e).toList := by
      cases he : f e with
      | none => simp [he]
      | some b => simp [he]
    rw [held_concat, List.filterMap_append, List.filterMap_append, List.flatten_append, hone, hone]
    cases e with
    | recorded m f =>
      have happend := ih.append (List.Sublist.refl (recorded? n (.recorded m f)).toList)
      simpa [drained?, empties, List.append_assoc] using happend
    | cleared m =>
      have hflatten := (List.sublist_append_left _ _).trans ih
      by_cases hm : m = some n
      · simpa [drained?, recorded?, empties, hm] using hflatten
      · simpa [drained?, recorded?, empties, hm] using ih
    | drained m fs =>
      by_cases hm : m = some n
      · subst hm
        have hfs : fs = held n es := h n es fs [] rfl
        simpa [drained?, recorded?, empties, hfs] using ih
      · simpa [drained?, recorded?, empties, hm] using ih

end LogEvent

namespace Session

/-! ## Runs -/

/-- What can be done in a session, and what happens to its logs by it. A dispatch may
do any of it, also to the log that its step would be recorded in. -/
inductive Runs : Session → List LogEvent → Session → Prop
  | refl (s : Session) : Runs s [] s
  | trans {s t u : Session} {es es' : List LogEvent} :
      Runs s es t → Runs t es' u → Runs s (es ++ es') u
  /-- anything that leaves the logs alone -/
  | elsewhere {s t : Session} : t.logs = s.logs → Runs s [] t
  | newLog (s : Session) (handle : Text) : Runs s [] (s.perform (.newLog handle)).session
  | shareLog (s : Session) (source handle : Text) :
      Runs s [] (s.perform (.shareLog source handle)).session
  | shareGlobalLog (s : Session) (handle : Text) :
      Runs s [] (s.perform (.shareGlobalLog handle)).session
  | record (s : Session) (log : Text) (f : Failure) :
      Runs s [.recorded (s.logs.number? log) f] (s.record log f).session
  | clear (s : Session) (log : Text) :
      Runs s [.cleared (s.logs.number? log)] (s.perform (.clearLog log)).session
  | drain {s : Session} {log : Text} {fs : List Failure} :
      (s.perform (.drainLog log)).outcome = .failures fs →
        Runs s [.drained (s.logs.number? log) fs] (s.perform (.drainLog log)).session
  | dispatched {α : Type} {dispatch : Session → Step → Handed α} {s : Session} {handle log : Text}
      {step t : Step} {es : List LogEvent} :
      (step.rewrite (s.resolver handle)).result = .ok t → Runs s es (dispatch s t).session →
        Runs s es (s.collectWith dispatch handle log step).session
  | skipped {α : Type} {dispatch : Session → Step → Handed α} {s : Session} {handle log : Text}
      {step : Step} {e : ResolutionError} :
      (step.rewrite (s.resolver handle)).result = .error e →
        Runs s [.recorded (s.logs.number? log) (.resolution e)]
          (s.collectWith dispatch handle log step).session

structure Follows (s : Session) (es : List LogEvent) : Prop where
  orderly : s.logs.Orderly
  held : ∀ n, s.logs.storage n [] = LogEvent.held n es
  drains : LogEvent.Drains es

variable {s t : Session} {es es' : List LogEvent}

theorem Follows.concat {e : LogEvent} (h : s.Follows es) (horderly : t.logs.Orderly)
    (hstorage : ∀ n, t.logs.storage n [] =
      if e.empties n then [] else s.logs.storage n [] ++ (e.recorded? n).toList)
    (hdrain : ∀ n fs, e = .drained (some n) fs → fs = s.logs.storage n []) :
    t.Follows (es ++ [e]) := by
  refine ⟨horderly, fun n => ?_, h.drains.concat fun n fs he => ?_⟩
  · rw [hstorage, h.held, LogEvent.held_concat]
  · rw [hdrain n fs he, h.held]

theorem Follows.of_same (h : s.Follows es) (horderly : t.logs.Orderly)
    (hstorage : ∀ n, t.logs.storage n [] = s.logs.storage n []) : t.Follows (es ++ []) := by
  rw [List.append_nil]
  exact ⟨horderly, fun n => (hstorage n).trans (h.held n), h.drains⟩

theorem Follows.record (h : s.Follows es) (log : Text) (f : Failure) :
    (s.record log f).session.Follows (es ++ [.recorded (s.logs.number? log) f]) := by
  apply h.concat
  · exact h.orderly.apply (.modify log (FailureLog.record f))
  · intro n
    rw [Session.record, h.orderly.storage_modify]
    by_cases hn : s.logs.number? log = some n
    · simp [LogEvent.empties, LogEvent.recorded?, FailureLog.record, hn]
    · simp [LogEvent.empties, LogEvent.recorded?, hn]
  · exact nofun

theorem Follows.emptied (h : s.Follows es) {log : Text} {e : LogEvent}
    (hempties : ∀ n, e.empties n = (s.logs.number? log == some n))
    (hdrain : ∀ n fs, e = .drained (some n) fs → fs = s.logs.storage n [])
    (hrecorded : ∀ n, e.recorded? n = none) :
    Follows { s with logs := s.logs.modify log fun _ => [] } (es ++ [e]) := by
  apply h.concat (h.orderly.apply (.modify log fun _ => [])) _ hdrain
  intro n
  rw [h.orderly.storage_modify, hempties, hrecorded]
  by_cases hn : s.logs.number? log = some n
  · simp [hn]
  · simp [hn]

theorem Follows.runs (h : s.Follows es) (hrun : s.Runs es' t) : t.Follows (es ++ es') := by
  induction hrun generalizing es with
  | refl s => exact h.of_same h.orderly fun _ => rfl
  | trans _ _ ih ih' =>
    rw [← List.append_assoc]
    exact ih' (ih h)
  | elsewhere hlogs => exact h.of_same (hlogs ▸ h.orderly) fun n => by rw [hlogs]
  | newLog s handle =>
    exact h.of_same (h.orderly.apply (.create handle []))
      fun n => Shared.storage_create handle [] s.logs n
  | shareLog s source handle =>
    exact h.of_same (h.orderly.apply (.share source handle))
      fun n => Shared.storage_share source handle s.logs n []
  | shareGlobalLog s handle => exact h.of_same (h.orderly.apply (.shareGlobal handle)) fun _ => rfl
  | record s log f => exact h.record log f
  | clear s log => exact h.emptied (fun _ => rfl) nofun fun _ => rfl
  | @drain s log fs houtcome =>
    refine h.emptied (fun _ => rfl) (fun n fs' he => ?_) fun _ => rfl
    obtain ⟨hn, hfs⟩ := LogEvent.drained.inj he
    rw [← hfs, ← Outcome.failures.inj houtcome]
    exact Shared.storage_eq_getD hn []
  | dispatched hr _ ih =>
    rw [session_collectWith, hr]
    exact ih h
  | skipped hr =>
    rw [session_collectWith, hr]
    exact h.record _ _

theorem exists_runs_perform (s : Session) (a : Action) : ∃ es, s.Runs es (s.perform a).session := by
  cases a with
  | newLog handle => exact ⟨[], .newLog s handle⟩
  | shareLog source handle => exact ⟨[], .shareLog s source handle⟩
  | shareGlobalLog handle => exact ⟨[], .shareGlobalLog s handle⟩
  | clearLog log => exact ⟨_, .clear s log⟩
  | drainLog log => exact ⟨_, .drain rfl⟩
  | collect registry log step =>
    cases hr : (step.rewrite (s.resolver registry)).result with
    | ok t => exact ⟨[], .dispatched hr (.refl s)⟩
    | error e => exact ⟨_, .skipped hr⟩
  | capture registry json path key => exact ⟨[], .elsewhere (logs_capture s registry json path key)⟩
  | intercept registry step target =>
    refine ⟨[], .elsewhere ?_⟩
    rw [logs_perform]
    rfl
  | edit registry resolved kind text rows =>
    refine ⟨[], .elsewhere ?_⟩
    rw [logs_perform]
    rfl
  | _ => exact ⟨[], .elsewhere rfl⟩

theorem log_collectEach {α : Type} {dispatch : Session → Step → Handed α} {handle log : Text}
    (hdispatch : ∀ s t, (dispatch s t).session.logs = s.logs)
    (hlog : (s.logs.get? log).isSome = true) (steps : List Step) :
    (s.collectEach dispatch handle log steps).session.log log =
      s.log log ++ failures (s.rewritings dispatch handle log steps) := by
  rw [session_collectEach]
  induction s.rewritings dispatch handle log steps generalizing s with
  | nil => exact (List.append_nil _).symm
  | cons r rs ih =>
    rw [List.foldl_cons]
    cases r with
    | ok t =>
      have hlogs : (s.meet dispatch log (.ok t)).logs = s.logs := hdispatch s t
      rw [ih (by rw [hlogs]; exact hlog), Session.log, hlogs]
      rfl
    | error e =>
      obtain ⟨fs, hfs⟩ := Option.isSome_iff_exists.mp hlog
      have hget : (s.meet dispatch log (.error e)).logs.get? log = some (fs ++ [.resolution e]) := by
        rw [meet, Session.record, Shared.get?_modify_self, hfs]
        rfl
      rw [ih (by rw [hget]; rfl), Session.log, Session.log, hget, hfs, Option.getD_some,
        Option.getD_some, List.append_assoc]
      rfl

/-- **A collecting run loses and duplicates nothing.** Each step is rewritten against what
the steps before it have left; then either it is dispatched as rewritten, once, or its
error is recorded, once. And whatever else is done in between, a log holds what has been
recorded in its storage since that was last emptied, which is also what a drain returns,
so none of it is returned again. -/
theorem collectEach_complete :
    (∀ (α : Type) (dispatch : Session → Step → Handed α) (s : Session) (handle log : Text)
        (steps : List Step),
      let rs := s.rewritings dispatch handle log steps
      let done := s.collectEach dispatch handle log steps
      let before (i : Nat) := (s.collectEach dispatch handle log (steps.take i)).session
      (∀ i : Nat, rs[i]? = steps[i]?.map fun step =>
        (step.rewrite ((before i).resolver handle)).result) ∧
      done.session = rs.foldl (meet dispatch log) s ∧
      (∀ i : Nat, done.value[i]? = rs[i]?.map ((before i).handedBack dispatch)) ∧
      ((∀ s t, (dispatch s t).session.logs = s.logs) → (s.logs.get? log).isSome = true →
        done.session.log log = s.log log ++ failures rs)) ∧
    (∀ s a, ∃ es, Runs s es (s.perform a).session) ∧
    ∀ (s t : Session) (es : List LogEvent), Runs { s with logs := .start [] } es t →
      (∀ log n, t.logs.number? log = some n → t.log log = LogEvent.held n es) ∧
      (∀ n before fs after, es = before ++ .drained (some n) fs :: after →
        fs = LogEvent.held n before) ∧
      ∀ n, ((es.filterMap (LogEvent.drained? n)).flatten ++ LogEvent.held n es).Sublist
        (es.filterMap (LogEvent.recorded? n)) := by
  refine ⟨fun α dispatch s handle log steps => ⟨rewritings_getElem? s steps,
    session_collectEach s steps, value_collectEach s steps,
    fun hdispatch hlog => log_collectEach hdispatch hlog steps⟩, exists_runs_perform, ?_⟩
  intro s t es hrun
  have hstart : Follows { s with logs := .start [] } [] :=
    ⟨Shared.orderly_start [], fun n => by cases n <;> rfl, fun n before fs after he => by
      cases before <;> cases he⟩
  have ht : t.Follows es := hstart.runs hrun
  refine ⟨fun log n hn => ?_, ht.drains, ht.drains.sublist⟩
  rw [Session.log, Shared.storage_eq_getD hn, ht.held]

def unheard : Session where
  properties := ⟨[], []⟩
  interfaces := []
  limit := 3
  registries := (Shared.start []).create ['m'] []
  logs := (Shared.start []).create ['l'] []
  settings := ⟨['r'], 1, []⟩
  files := fun _ => .error .notFound

def keepText (s : Session) (t : Step) : Handed Text :=
  ⟨(s.perform (.set ['m'] ['k'] t.text)).session, [], t.text⟩

def lineOf (text : Text) : Step := ⟨[], text, 1, [], none, none⟩

theorem result_rewrite_lineOf (resolve : Resolver) (text : Text) :
    ((lineOf text).rewrite resolve).result =
      match (resolve text).result with
      | .ok t => .ok (lineOf t)
      | .error e => .error e := by
  have htext : (lineOf text).text = text := rfl
  rw [Step.rewrite, Run.andThen, htext]
  cases (resolve text).result with
  | ok t => rfl
  | error e => rfl

def chainedSteps : List Step :=
  [lineOf ['a'], lineOf ['!', '{', 'k', '}'], lineOf ['!', '{', 'z', '}']]

theorem rewritings_chainedSteps : unheard.rewritings keepText ['m'] ['l'] chainedSteps =
    [.ok (lineOf ['a']), .ok (lineOf ['a']), .error (.missingKey ['z'])] := by
  let kept : Session :=
    { unheard with registries := (Shared.start []).create ['m'] [(['k'], ['a'])] }
  have hfirst : ((lineOf ['a']).rewrite (unheard.resolver ['m'])).result = .ok (lineOf ['a']) := by
    rw [result_rewrite_lineOf, resolver, Sources.resolve_of_hasMarker rfl]
    rfl
  have hsecond : ((lineOf ['!', '{', 'k', '}']).rewrite (kept.resolver ['m'])).result =
      .ok (lineOf ['a']) := by
    have hends : (kept.sources ['m']).Ends .property ['!', '{', 'k', '}'] _ (.ok ['a']) :=
      .filled rfl rfl (.clear rfl)
    rw [result_rewrite_lineOf, resolver, hends.resolve kept.limit (by decide)]
  have hthird : ((lineOf ['!', '{', 'z', '}']).rewrite (kept.resolver ['m'])).result =
      .error (.missingKey ['z']) := by
    have hends : (kept.sources ['m']).Ends .property ['!', '{', 'z', '}'] _
        (.error (.missingKey ['z'])) := .refused rfl rfl
    rw [result_rewrite_lineOf, resolver, hends.resolve kept.limit (by decide)]
  have hkept : (unheard.collectWith keepText ['m'] ['l'] (lineOf ['a'])).session = kept := by
    rw [session_collectWith, hfirst]
    rfl
  have hstays : (kept.collectWith keepText ['m'] ['l'] (lineOf ['!', '{', 'k', '}'])).session =
      kept := by
    rw [session_collectWith, hsecond]
    rfl
  rw [chainedSteps, rewritings, rewritings, rewritings, rewritings, hkept, hstays, hfirst, hsecond,
    hthird]

theorem collectEach_chainedSteps :
    (unheard.collectEach keepText ['m'] ['l'] chainedSteps).value[1]? = some (some ['a']) ∧
      (unheard.collectEach keepText ['m'] ['l'] chainedSteps).session.log ['l'] =
        [.resolution (.missingKey ['z'])] ∧
      ∀ f g : Failure, ∃ t es, Runs { unheard with logs := .start [] } es t ∧
        es.filterMap (LogEvent.drained? 1) = [[f]] ∧ t.log ['k'] = [g] := by
  obtain ⟨hcollect, -, hruns⟩ := collectEach_complete
  obtain ⟨-, -, hvalue, hlog⟩ := hcollect Text keepText unheard ['m'] ['l'] chainedSteps
  refine ⟨?_, ?_, fun f g => ?_⟩
  · rw [hvalue, rewritings_chainedSteps]
    rfl
  · rw [hlog (fun _ _ => rfl) rfl, rewritings_chainedSteps]
    rfl
  · have hrun := Runs.trans (.newLog { unheard with logs := .start [] } ['l'])
      (.trans (.shareLog _ ['l'] ['k']) (.trans (.record _ ['k'] f)
        (.trans (@Runs.drain _ ['l'] _ rfl) (.record _ ['l'] g))))
    exact ⟨_, _, hrun, rfl, (hruns unheard _ _ hrun).1 ['k'] 1 rfl⟩

end Session

end Fixtures
