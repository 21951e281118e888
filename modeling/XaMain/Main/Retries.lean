import XaMain.Main.SettingsLoader

/-!
# The attempts at loading the settings

`load_settings_from_database` makes up to five attempts.  `loadSettings_retries` says what it leaves
in the log of the calls, for any table of settings: it returns `false` iff all five fail, and `true`
at the end of the first that does not.  In that one every statement of the table was executed once,
in the order of the table, and its result was fetched, parsed and freed once.
-/

set_option autoImplicit false

namespace XaMain
namespace Options

open Mariadb

/-! ## The calls of an attempt -/

/-- How often `mysql_init` was called. -/
def inits (t : Trace) : Nat := t.countP IsInit

theorem inits_append (t t' : Trace) : inits (t ++ t') = inits t + inits t' := List.countP_append

/-- The calls that do not begin an attempt. -/
theorem inits_of_appends {t t' : Trace} (h : Appends (fun c ↦ IsInit c = false) t t') :
    inits t' = inits t := by
  obtain ⟨l, rfl, hl⟩ := h
  have hnone : inits l = 0 := List.countP_eq_zero.mpr fun c hc ↦ by simp [hl c hc]
  rw [inits_append, hnone, Nat.add_zero]

/-- The calls for one entry of the table, if all goes well. -/
def settingCalls (p : DbSetting × Nat) : Trace :=
  [.query p.1.sqlStmt true, .storeResult (some p.2), .freeResult p.2]

/-- The calls for all that is loaded, with the results of the entries. -/
def loadCalls (table : List DbSetting) (results : List Nat) : Trace :=
  .query timeZoneQuery true :: (table.zip results).flatMap settingCalls

section Load

variable {env : Environment} {table : List DbSetting} {t t' : Trace}

/-- The table is loaded only if every entry is. -/
theorem loadTable_returned (h : loadTable env table t = (.returned (), t')) :
    ∃ results, results.length = table.length ∧
      t' = t ++ (table.zip results).flatMap settingCalls := by
  induction table generalizing t with
  | nil => exact ⟨[], rfl, by simpa [loadTable] using (Prod.mk.inj h).2.symm⟩
  | cons setting table ih =>
    cases hq : env.query t setting.sqlStmt with
    | false =>
      rw [loadTable, Comp.bind_threw (queryDbWithExcept_failed env hq)] at h
      simp at h
    | true =>
      cases hs : env.storeResult (t ++ [.query setting.sqlStmt true]) with
      | none =>
        rw [loadTable, Comp.bind_returned (queryDbWithExcept_ok env hq),
          Comp.bind_threw (fetchResultDbWithExcept_none env hs)] at h
        simp at h
      | some r =>
        cases hp : setting.thrown
            (t ++ [.query setting.sqlStmt true, .storeResult (some r)]) r with
        | some e =>
          rw [loadTable_threw table hq hs hp] at h
          simp at h
        | none =>
          rw [loadTable_parsed table hq hs hp] at h
          obtain ⟨results, hlength, rfl⟩ := ih h
          refine ⟨r :: results, by rw [List.length_cons, List.length_cons, hlength], ?_⟩
          rw [List.zip_cons_cons, List.flatMap_cons, settingCalls, List.append_assoc]

theorem loadDbsettingsAll_true (h : loadDbsettingsAll env table t = (.returned true, t')) :
    ∃ results, results.length = table.length ∧ t' = t ++ loadCalls table results := by
  rcases loadSteps_ends env table t with ⟨_, t₁, hrun⟩ | ⟨e, t₁, hrun⟩
  · rw [loadDbsettingsAll_returned hrun] at h
    obtain rfl : t₁ = t' := (Prod.mk.inj h).2
    rw [loadSteps] at hrun
    cases hq : env.query t timeZoneQuery with
    | false =>
      rw [Comp.bind_threw (queryDbWithExcept_failed env hq)] at hrun
      simp at hrun
    | true =>
      rw [Comp.bind_returned (queryDbWithExcept_ok env hq)] at hrun
      obtain ⟨results, hlength, rfl⟩ := loadTable_returned hrun
      exact ⟨results, hlength, by rw [loadCalls, List.append_assoc, List.singleton_append]⟩
  · rw [loadDbsettingsAll_threw hrun] at h
    cases he : e.isA .invalidArgument with
    | true =>
      rw [loadClauses_invalid he] at h
      simp at h
    | false =>
      rw [loadClauses_other he] at h
      simp at h

end Load

/-! ## The attempts -/

/-- An attempt that fails, from the calls `t` to those that the next one begins with. -/
inductive AttemptFails (env : Environment) (table : List DbSetting) (uri : String) (t : Trace) :
    Trace → Prop where
  /-- It does not connect. -/
  | unconnected {t' : Trace} (hrun : connectDb env uri t = (.returned false, t')) :
    AttemptFails env table uri t (t' ++ [.error])
  /-- It connects, and `load_dbsettings_all` returns `false`. -/
  | unloaded {t₁ t' : Trace} (hconn : connectDb env uri t = (.returned true, t₁))
      (hload : loadDbsettingsAll env table t₁ = (.returned false, t')) :
    AttemptFails env table uri t (t' ++ [.error] ++ [.close])

/-- That many attempts that fail, one after the other. -/
inductive FailedAttempts (env : Environment) (table : List DbSetting) (uri : String) :
    Nat → Trace → Trace → Prop where
  | none {t : Trace} : FailedAttempts env table uri 0 t t
  | next {n : Nat} {t t₁ t' : Trace} (hfails : AttemptFails env table uri t t₁)
      (hrest : FailedAttempts env table uri n t₁ t') : FailedAttempts env table uri (n + 1) t t'

/-- What `left` attempts after the calls `t` leave, if they end with `o` and the calls `t'`. -/
inductive Attempted (env : Environment) (table : List DbSetting) (uri : String) (t : Trace)
    (left : Nat) : Outcome Exception Bool → Trace → Prop where
  /-- All of them fail. -/
  | failed {t' : Trace} (hfailed : FailedAttempts env table uri left t t') :
    Attempted env table uri t left (.returned false) t'
  /-- The one after the first `n` does not. -/
  | loaded {n : Nat} {t₀ : Trace} {params : DbParams} {results : List Nat} (hn : n < left)
      (hfailed : FailedAttempts env table uri n t t₀) (hconn : Connected env uri t₀ params)
      (hlength : results.length = table.length) :
    Attempted env table uri t left (.returned true)
      (t₀ ++ connectCalls params ++ loadCalls table results)
  /-- The one after the first `n` finds that the URI has a port that is no `int`. -/
  | threw {n : Nat} {t₀ t' : Trace} (hn : n < left) (hfailed : FailedAttempts env table uri n t t₀)
      (hport : PortOverflows uri)
      (hrun : connectDb env uri t₀ = (.threw (outOfRange "stoi"), t')) :
    Attempted env table uri t left (.threw (outOfRange "stoi")) t'

section Attempts

variable {env : Environment} {table : List DbSetting} {uri : String}

theorem inits_loadCalls (table : List DbSetting) (results : List Nat) :
    inits (loadCalls table results) = 0 := by
  refine List.countP_eq_zero.mpr fun c hc ↦ ?_
  simp only [loadCalls, List.mem_cons, List.mem_flatMap, settingCalls, List.not_mem_nil,
    or_false] at hc
  obtain rfl | ⟨p, -, rfl | rfl | rfl⟩ := hc <;> simp [IsInit]

variable (env uri) in
/-- An attempt at connecting is one call of `mysql_init`. -/
theorem inits_connectDb (t : Trace) : inits (connectDb env uri t).2 = inits t + 1 := by
  rcases connection env uri t with
    h | ⟨h, -, params, hp⟩ | ⟨h, params, hp⟩ | ⟨params, h, hp, hc⟩ | ⟨params, h⟩
  · rw [connectDb_initFailed h]
    exact inits_append _ _
  · rw [connectDb_unreadable h hp]
    exact inits_append _ _
  · rw [connectDb_rejected h hp]
    exact inits_append _ _
  · rw [connectDb_refused h hp hc, inits_append, inits_append]
    rfl
  · rw [connectDb_connected h]
    exact inits_append _ _

theorem AttemptFails.inits_eq {t t' : Trace} (h : AttemptFails env table uri t t') :
    inits t' = inits t + 1 := by
  have hconnect := inits_connectDb env uri t
  cases h with
  | unconnected hrun =>
    rw [hrun] at hconnect
    rw [inits_append]
    exact hconnect
  | @unloaded t₁ t' hconn hload =>
    rw [hconn] at hconnect
    have hmoves := inits_of_appends (loadDbsettingsAll_notInit env table t₁)
    rw [hload] at hmoves
    rw [inits_append, inits_append]
    exact hmoves.trans hconnect

theorem FailedAttempts.inits_eq {n : Nat} {t t' : Trace}
    (h : FailedAttempts env table uri n t t') : inits t' = inits t + n := by
  induction h with
  | none => rfl
  | next hfails _ ih =>
    rw [ih, hfails.inits_eq]
    omega

/-- There are no more attempts than that. -/
theorem Attempted.inits_le {t t' : Trace} {left : Nat} {o : Outcome Exception Bool}
    (h : Attempted env table uri t left o t') : inits t' ≤ inits t + left := by
  cases h with
  | failed hfailed => exact hfailed.inits_eq.le
  | @loaded n before params results hn hfailed _ _ =>
    have hcalls : inits (connectCalls params) = 1 := rfl
    rw [inits_append, inits_append, inits_loadCalls, hfailed.inits_eq, hcalls]
    omega
  | @threw n before t' hn hfailed _ hrun =>
    have hconnect := inits_connectDb env uri before
    rw [hrun, hfailed.inits_eq] at hconnect
    exact hconnect.le.trans (by omega)

/-- One attempt that has failed before the others. -/
theorem Attempted.after {t t₁ t' : Trace} {left : Nat} {o : Outcome Exception Bool}
    (h : Attempted env table uri t₁ left o t') (hfails : AttemptFails env table uri t t₁) :
    Attempted env table uri t (left + 1) o t' := by
  cases h with
  | failed hfailed => exact .failed (.next hfails hfailed)
  | loaded hn hfailed hconn hlength =>
    exact .loaded (Nat.succ_lt_succ hn) (.next hfails hfailed) hconn hlength
  | threw hn hfailed hport hrun =>
    exact .threw (Nat.succ_lt_succ hn) (.next hfails hfailed) hport hrun

variable (env uri) in
theorem connectDb_attempted (t : Trace) :
    (∃ t', connectDb env uri t = (.returned false, t')) ∨
    (∃ t', connectDb env uri t = (.threw (outOfRange "stoi"), t') ∧ PortOverflows uri) ∨
    ∃ params, Connected env uri t params := by
  rcases connection env uri t with
    h | ⟨h, hport, params, hp⟩ | ⟨h, params, hp⟩ | ⟨params, h, hp, hc⟩ | ⟨params, h⟩
  · exact Or.inl ⟨_, connectDb_initFailed h⟩
  · exact Or.inr (Or.inl ⟨_, connectDb_unreadable h hp, hport⟩)
  · exact Or.inl ⟨_, connectDb_rejected h hp⟩
  · exact Or.inl ⟨_, connectDb_refused h hp hc⟩
  · exact Or.inr (Or.inr ⟨params, h⟩)

variable (env table uri) in
/-- **The attempts**, from any calls that were made before. -/
theorem attempted (left : Nat) (t : Trace) :
    Attempted env table uri t left (attempts env table uri left t).1
      (attempts env table uri left t).2 := by
  induction left generalizing t with
  | zero => exact .failed .none
  | succ left ih =>
    obtain ⟨t', hrun⟩ | ⟨t', hrun, hport⟩ | ⟨params, hconn⟩ := connectDb_attempted env uri t
    · rw [attempts_unconnected hrun]
      exact (ih _).after (.unconnected hrun)
    · rw [attempts_connectThrew hrun]
      exact .threw (Nat.succ_pos left) .none hport hrun
    · obtain ⟨b, t', hload⟩ := loadDbsettingsAll_returns env table (t ++ connectCalls params)
      cases b with
      | true =>
        rw [attempts_loaded hconn hload]
        obtain ⟨results, hlength, rfl⟩ := loadDbsettingsAll_true hload
        exact .loaded (Nat.succ_pos left) .none hconn hlength
      | false =>
        rw [attempts_unloaded hconn hload]
        exact (ih _).after (.unloaded (connectDb_connected hconn) hload)

end Attempts

/-- **When the settings are loaded.**  All five attempts fail, and the load returns `false`; or the
first that does not comes after fewer than five that do, and the load returns `true` at its end: it
connects, and each statement of the table is executed, in the order of the table, and its result
fetched and freed; or the port in the URI makes `std::stoi` throw in an attempt after those that
fail, and nothing catches that.  An attempt fails if it does not connect or if
`load_dbsettings_all` returns `false`, and each is one call of `mysql_init`. -/
theorem loadSettings_retries (env : Environment) (table : List DbSetting) (s : Settings)
    (henabled : s.settingsEnabled = true) :
    (∃ t, loadSettingsFromDatabase env table s [] = (.returned false, t) ∧
      FailedAttempts env table s.settingsDatabaseUri 5 [] t ∧ inits t = 5) ∨
    (∃ n before params results, n < 5 ∧
      FailedAttempts env table s.settingsDatabaseUri n [] before ∧ inits before = n ∧
      Connected env s.settingsDatabaseUri before params ∧ results.length = table.length ∧
      loadSettingsFromDatabase env table s []
        = (.returned true, before ++ connectCalls params ++ loadCalls table results)) ∨
    (PortOverflows s.settingsDatabaseUri ∧ ∃ n before t, n < 5 ∧
      FailedAttempts env table s.settingsDatabaseUri n [] before ∧
      connectDb env s.settingsDatabaseUri before = (.threw (outOfRange "stoi"), t) ∧
      loadSettingsFromDatabase env table s [] = (.threw (outOfRange "stoi"), t) ∧
      inits t ≤ 5) := by
  have hload : loadSettingsFromDatabase env table s []
      = attempts env table s.settingsDatabaseUri 5 [] := by
    rw [loadSettingsFromDatabase, henabled]
    rfl
  have hattempted := attempted env table s.settingsDatabaseUri 5 []
  rw [← hload] at hattempted
  generalize loadSettingsFromDatabase env table s [] = r at hattempted
  obtain ⟨o, t⟩ := r
  have hinits : inits t ≤ 5 := hattempted.inits_le.trans_eq (Nat.zero_add 5)
  cases hattempted with
  | failed hfailed =>
    exact Or.inl ⟨t, rfl, hfailed, hfailed.inits_eq.trans (Nat.zero_add 5)⟩
  | @loaded n before params results hn hfailed hconn hlength =>
    exact Or.inr (Or.inl ⟨n, before, params, results, hn, hfailed,
      hfailed.inits_eq.trans (Nat.zero_add n), hconn, hlength, rfl⟩)
  | @threw n before t' hn hfailed hport hrun =>
    exact Or.inr (Or.inr ⟨hport, n, before, t, hn, hfailed, hrun, rfl, hinits⟩)

/-- The outside when no handle can be initialised. -/
def exhaustedMemory : Environment := { serving with init := fun _ ↦ false }

theorem loadSettings_retries_failed : ∃ t,
    loadSettingsFromDatabase exhaustedMemory dbSettings sampleSettings [] = (.returned false, t) ∧
      FailedAttempts exhaustedMemory dbSettings sampleSettings.settingsDatabaseUri 5 [] t := by
  have hrun : (loadSettingsFromDatabase exhaustedMemory dbSettings sampleSettings []).1
      = .returned false := rfl
  obtain ⟨t, h, hfailed, -⟩ | ⟨_, _, _, _, -, -, -, -, -, h⟩ | ⟨-, _, _, _, -, -, -, h, -⟩ :=
    loadSettings_retries exhaustedMemory dbSettings sampleSettings rfl
  · exact ⟨t, h, hfailed⟩
  · rw [h] at hrun
    simp at hrun
  · rw [h] at hrun
    simp at hrun

end Options
end XaMain
