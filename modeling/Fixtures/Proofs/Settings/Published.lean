import Fixtures.Proofs.Session.Run
import Fixtures.Proofs.Text.Trim
import Mathlib.Data.List.DropRight

/-!
# The published settings

Settings are looked at before they are published, so whatever is done in a session
leaves settings that may be used. Only a change of the settings reaches them
(`settings_perform`), and a change says by itself what they become.
-/

namespace Fixtures

theorem Text.trim_eq_nil_iff {t : Text} : trim t = [] ↔ ∀ c ∈ t, isBlank c = true := by
  rw [trim, trimEnd, List.reverse_eq_nil_iff, List.dropWhile_eq_nil_iff]
  constructor
  · intro h
    have hstart : trimStart (trimStart t) = [] :=
      List.dropWhile_eq_nil_iff.mpr fun c hc => h c (List.mem_reverse.mpr hc)
    rw [trimStart, trimStart, List.dropWhile_idempotent] at hstart
    exact List.dropWhile_eq_nil_iff.mp hstart
  · intro h c hc
    exact h c ((List.dropWhile_sublist isBlank).subset (List.mem_reverse.mp hc))

namespace Settings

variable {s : Settings} {c : Change}

/-- A limit that lets something be looked up, and a directory with a name. -/
structure Usable (s : Settings) : Prop where
  limit_pos : 0 < s.maxSubstitutions
  directory : ∃ c ∈ s.resourceDir, Text.isBlank c = false

theorem usable_iff : s.Usable ↔ s.fault? = none := by
  have hdirectory : (∃ c ∈ s.resourceDir, Text.isBlank c = false) ↔
      ¬ (Text.trim s.resourceDir).isEmpty = true := by
    rw [List.isEmpty_iff, Text.trim_eq_nil_iff]
    simp only [not_forall, exists_prop, Bool.not_eq_true]
  constructor
  · intro h
    rw [fault?, if_neg (Nat.ne_of_gt h.limit_pos), if_neg (hdirectory.mp h.directory)]
  · intro h
    rw [fault?] at h
    split at h
    · cases h
    rename_i hlimit
    split at h
    · cases h
    · rename_i hempty
      exact ⟨Nat.pos_of_ne_zero hlimit, hdirectory.mpr hempty⟩

theorem usable_initial : initial.Usable := usable_iff.mpr (by decide)

def Change.isLoad : Change → Bool
  | .load _ => true
  | .loadFile _ _ => true
  | _ => false

theorem usable_of_load {document : Option Json} (h : load document = .ok s) : s.Usable := by
  rw [load] at h
  split at h
  · cases h
  · rename_i hfault
    cases h
    exact usable_iff.mpr hfault

theorem usable_of_loadFile {read : FileReader} {name : Text} (h : loadFile read name = .ok s) :
    s.Usable := by
  rw [loadFile] at h
  split at h
  · cases h
  · exact usable_of_load h

theorem usable_of_result {t : Settings} (h : c.result s = .ok t) : t.Usable := by
  cases c with
  | load document => exact usable_of_load h
  | loadFile read name => exact usable_of_loadFile h
  | update f =>
    rw [Change.result] at h
    split at h
    · cases h
      exact usable_initial
    · rename_i hfault
      cases h
      exact usable_iff.mpr hfault
  | reset =>
    cases h
    exact usable_initial

theorem Usable.change (h : s.Usable) (c : Change) : (s.change c).Usable := by
  rw [Settings.change]
  split
  · rename_i hresult
    exact usable_of_result hresult
  · exact h

end Settings

namespace Session

open Settings (Change)

variable {s : Session} {a : Action}

theorem settings_capture (s : Session) (handle json path key : Text) :
    (s.capture handle json path key).session.settings = s.settings := by
  rw [capture]
  split <;> rfl

theorem settings_perform (h : ∀ c, a ≠ .change c) : (s.perform a).session.settings = s.settings := by
  cases a with
  | change c => exact absurd rfl (h c)
  | capture registry json path key => exact settings_capture s registry json path key
  | intercept registry step target =>
    rw [perform, session_intercept]
    split
    · exact settings_capture s registry _ _ _
    · rfl
  | collect registry log step =>
    rw [perform, collect, session_collectWith]
    split <;> rfl
  | edit registry resolved kind text rows => rw [perform, session_edit]
  | _ => rfl

theorem usable_perform (h : s.settings.Usable) (a : Action) :
    (s.perform a).session.settings.Usable := by
  by_cases hc : ∃ c, a = .change c
  · obtain ⟨c, rfl⟩ := hc
    exact h.change c
  · rw [settings_perform fun c hac => hc ⟨c, hac⟩]
    exact h

theorem perform_load {c : Change} (hc : c.isLoad = true) (s : Session) :
    match c.result .initial with
    | .ok t => (s.perform (.change c)).outcome = .settings t ∧
        (s.perform (.change c)).session = { s with settings := t }
    | .error e => (s.perform (.change c)).outcome = .failed (.settings e) ∧
        (s.perform (.change c)).session = s := by
  have hresult : c.result s.settings = c.result .initial := by
    cases c with
    | load document => rfl
    | loadFile read name => rfl
    | update f => cases hc
    | reset => cases hc
  have houtcome : (s.perform (.change c)).outcome =
      .ofExcept .settings .settings (c.result s.settings) := by
    cases c with
    | load document => rfl
    | loadFile read name => rfl
    | update f => cases hc
    | reset => cases hc
  have hsession : (s.perform (.change c)).session = { s with settings := s.settings.change c } := rfl
  rw [houtcome, hsession, Settings.change, hresult]
  cases c.result .initial with
  | ok t => exact ⟨rfl, rfl⟩
  | error e => exact ⟨rfl, rfl⟩

theorem perform_update (s : Session) (f : Settings → Settings) :
    ((f s.settings).Usable →
      (s.perform (.change (.update f))).session = { s with settings := f s.settings }) ∧
    (¬ (f s.settings).Usable →
      (s.perform (.change (.update f))).session = { s with settings := .initial }) := by
  have hsession : (s.perform (.change (.update f))).session =
      { s with settings := s.settings.change (.update f) } := rfl
  rw [hsession, Settings.change, Change.result, Settings.usable_iff]
  cases (f s.settings).fault? with
  | none => exact ⟨fun _ => rfl, fun h => absurd rfl h⟩
  | some fault => exact ⟨nofun, fun _ => rfl⟩

/-- **The published settings may always be used**, whatever has been done before. Loading
publishes what it gives, which does not hang on the session, or fails and changes
nothing; an update publishes what it makes of the settings or, if that may not be used,
the initial ones. No other action changes them. -/
theorem published_settings :
    (∀ (s : Session) (as : List Action),
      (run { s with settings := .initial } as).settings.Usable) ∧
    (∀ c : Change, c.isLoad = true → ∃ r : Except SettingsError Settings, ∀ s : Session,
      match r with
      | .ok t => (s.perform (.change c)).outcome = .settings t ∧
          (s.perform (.change c)).session = { s with settings := t }
      | .error e => (s.perform (.change c)).outcome = .failed (.settings e) ∧
          (s.perform (.change c)).session = s) ∧
    (∀ (f : Settings → Settings) (s : Session),
      ((f s.settings).Usable →
        (s.perform (.change (.update f))).session = { s with settings := f s.settings }) ∧
      (¬ (f s.settings).Usable →
        (s.perform (.change (.update f))).session = { s with settings := .initial })) ∧
    (∀ s : Session, (s.perform (.change .reset)).session = { s with settings := .initial }) ∧
    ∀ (s : Session) (a : Action), (∀ c, a ≠ .change c) →
      (s.perform a).session.settings = s.settings := by
  refine ⟨fun s as => ?_, fun c hc => ⟨c.result .initial, perform_load hc⟩,
    fun f s => perform_update s f, fun s => rfl, fun s a => settings_perform⟩
  exact run_invariant (P := fun s => s.settings.Usable) (fun s a h => usable_perform h a)
    Settings.usable_initial as

def settled : Session where
  properties := ⟨[], []⟩
  interfaces := []
  limit := 1
  registries := Shared.start []
  logs := Shared.start []
  settings := .initial
  files := fun _ => .error .notFound

def blankDirectoryDoc : Json :=
  .obj [(Settings.sectionName, .obj [("resourceDir".toList, .str [' '])])]

theorem published_blankDirectory :
    (run settled [.change (.update fun t => { t with resourceDir := ['d'] }),
        .change (.load (some blankDirectoryDoc)), .change (.load none)]).settings.Usable ∧
      (settled.perform (.change (.load (some blankDirectoryDoc)))).session = settled ∧
      (settled.perform (.change (.update fun t => { t with maxSubstitutions := 7 }))).session =
        { settled with settings := { Settings.initial with maxSubstitutions := 7 } } ∧
      (settled.perform (.change (.update fun t => { t with maxSubstitutions := 0 }))).session =
        settled := by
  obtain ⟨hrun, hload, hupdate, -, -⟩ := published_settings
  have hdirectory : ∃ c ∈ Settings.initial.resourceDir, Text.isBlank c = false :=
    ⟨'r', by decide, by decide⟩
  refine ⟨hrun settled _, ?_, (hupdate _ settled).1 ⟨by decide, hdirectory⟩,
    (hupdate _ settled).2 fun h => absurd h.limit_pos (by decide)⟩
  obtain ⟨r, hr⟩ := hload (.load (some blankDirectoryDoc)) rfl
  have hsettled := hr settled
  cases r with
  | error e => exact hsettled.2
  | ok t => exact nomatch hsettled.1

end Session

end Fixtures
