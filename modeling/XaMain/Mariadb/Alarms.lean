import XaMain.Mariadb.Settles

/-!
# Which alarms are stored

`save_alarm_to_db` is called once for each alarm, by callers that see its answer only.  This file is
about any number of calls, one after another, and about the statements for which `mysql_query`
returned 0: none is of an alarm that was not raised, none is there twice, none of an alarm that was
answered with true is missing, and they are in the order of the calls.  That of an alarm that was
answered with false is among them nonetheless if the server reports another number of rows than the
one it has inserted.  Whether the server has executed a statement for which `mysql_query` failed,
and its reply was lost, the client does not know.

The statement tells the type and the code of its alarm, unless the type is the character that ends
a C string.
-/

set_option autoImplicit false

namespace XaMain
namespace Mariadb

/-! ## The statement of an alarm -/

theorem cString_of_forall {s : String} (h : ∀ c ∈ s.toList, c ≠ '\x00') : cString s = s := by
  rw [cString, List.takeWhile_eq_self_iff.mpr fun c hc ↦ decide_eq_true (h c hc),
    String.ofList_toList]

/-- The digits and the sign of a number do not end a C string. -/
theorem nul_notMem_toString (code : Int) : ∀ c ∈ (toString code).toList, c ≠ '\x00' := by
  have hnat (n : Nat) : ∀ c ∈ (toString n).toList, c ≠ '\x00' := fun c hc heq ↦
    absurd ((Decimal.numeral_toString n).1.2 c hc) (by rw [heq]; decide)
  cases code with
  | ofNat n => exact hnat n
  | negSucc n =>
    intro c hc
    have hc' : c ∈ ("-" ++ toString (n + 1)).toList := hc
    rw [String.toList_append, List.mem_append] at hc'
    rcases hc' with hminus | hdigit
    · rw [List.mem_singleton.mp hminus]
      decide
    · exact hnat (n + 1) c hdigit

theorem alarmQuery_begin : ∀ c ∈ "INSERT INTO apca_dev.event_list values(NULL,'".toList,
    decide (c ≠ '\x00') = true := by
  have hall : "INSERT INTO apca_dev.event_list values(NULL,'".toList.all (· ≠ '\x00') = true := by
    decide
  exact List.all_eq_true.mp hall

theorem alarmQuery_toList {type : Char} (htype : type ≠ '\x00') (code : Int) :
    (alarmQuery type code).toList = "INSERT INTO apca_dev.event_list values(NULL,'".toList ++
      (type :: '\'' :: ',' :: ((toString code).toList ++ ",sysdate(),NULL);".toList)) := by
  have htext : ("INSERT INTO apca_dev.event_list values(NULL,'" ++ String.singleton type ++ "'," ++
      toString code ++ ",sysdate(),NULL);").toList
        = "INSERT INTO apca_dev.event_list values(NULL,'".toList ++
          (type :: '\'' :: ',' :: ((toString code).toList ++ ",sysdate(),NULL);".toList)) := by
    simp only [String.toList_append, String.toList_singleton, List.append_assoc]
    rfl
  rw [alarmQuery, cString_of_forall, htext]
  rw [htext]
  intro c hc
  simp only [List.mem_append, List.mem_cons] at hc
  rcases hc with h | rfl | rfl | rfl | h | h
  · exact of_decide_eq_true (alarmQuery_begin c h)
  · exact htype
  · decide
  · decide
  · exact nul_notMem_toString code c h
  · have hend : ",sysdate(),NULL);".toList.all (· ≠ '\x00') = true := by decide
    exact of_decide_eq_true (List.all_eq_true.mp hend c h)

/-- A type that ends a C string ends the statement. -/
theorem alarmQuery_nul (code : Int) :
    alarmQuery '\x00' code = "INSERT INTO apca_dev.event_list values(NULL,'" := by
  have hnul (l : List Char) : (['\x00'] ++ l).takeWhile (fun c ↦ decide (c ≠ '\x00')) = [] := rfl
  rw [alarmQuery, cString]
  simp only [String.toList_append, String.toList_singleton, List.append_assoc]
  rw [List.takeWhile_append_of_pos alarmQuery_begin, hnul, List.append_nil, String.ofList_toList]

theorem alarmQuery_ne_nul {type : Char} (htype : type ≠ '\x00') (code code' : Int) :
    alarmQuery type code ≠ alarmQuery '\x00' code' := by
  intro h
  have htext := congrArg String.toList h
  rw [alarmQuery_toList htype, alarmQuery_nul] at htext
  exact absurd (List.append_right_eq_self.mp htext) (List.cons_ne_nil _ _)

/-- The statement tells the alarm. -/
theorem alarmQuery_eq_iff (type type' : Char) (code code' : Int) :
    alarmQuery type code = alarmQuery type' code' ↔
      type = type' ∧ (code = code' ∨ type = '\x00') := by
  by_cases htype : type = '\x00'
  · subst htype
    by_cases htype' : type' = '\x00'
    · rw [htype', alarmQuery_nul, alarmQuery_nul]
      exact ⟨fun _ ↦ ⟨rfl, Or.inr rfl⟩, fun _ ↦ rfl⟩
    · exact ⟨fun h ↦ absurd h.symm (alarmQuery_ne_nul htype' code' code),
        fun h ↦ absurd h.1.symm htype'⟩
  · refine ⟨fun h ↦ ?_, ?_⟩
    · have htype' : type' ≠ '\x00' := fun heq ↦ alarmQuery_ne_nul htype code code' (heq ▸ h)
      have htext := congrArg String.toList h
      rw [alarmQuery_toList htype, alarmQuery_toList htype', List.append_cancel_left_eq,
        List.cons.injEq, List.cons.injEq, List.cons.injEq, List.append_cancel_right_eq,
        String.toList_inj] at htext
      exact ⟨htext.1, Or.inl (Decimal.int_toString_injective htext.2.2.2)⟩
    · rintro ⟨rfl, rfl | hnul⟩
      · rfl
      · exact absurd hnul htype

/-! ## One alarm -/

/-- A call of `save_alarm_to_db`. -/
structure Alarm where
  type : Char
  code : Int
  uri : String

/-- The statement that stores it. -/
def Alarm.stmt (a : Alarm) : String := alarmQuery a.type a.code

/-- What is stored of it. -/
def Alarm.row (a : Alarm) : Char × Int := (a.type, a.code)

/-- Statements tell the alarms they are of. -/
theorem row_eq_of_stmt {l l' : List Alarm} (hl : ∀ a ∈ l, a.type ≠ '\x00')
    (h : l.map Alarm.stmt = l'.map Alarm.stmt) : l.map Alarm.row = l'.map Alarm.row := by
  induction l generalizing l' with
  | nil =>
    rw [List.map_nil, eq_comm, List.map_eq_nil_iff] at h
    rw [h]
  | cons a l ih =>
    obtain ⟨b, l', rfl, hstmt, hrest⟩ := List.map_eq_cons_iff.mp h.symm
    obtain ⟨htype, hcode⟩ := (alarmQuery_eq_iff b.type a.type b.code a.code).mp hstmt
    have hne : a.type ≠ '\x00' := hl a List.mem_cons_self
    have hrow : a.row = b.row :=
      Prod.ext htype.symm (hcode.resolve_right fun hnul ↦ hne (htype ▸ hnul)).symm
    have htail := ih (fun c hc ↦ hl c (List.mem_cons_of_mem a hc)) hrest.symm
    rw [List.map_cons, List.map_cons, hrow, htail]

/-- The statement, if the call is one of `mysql_query` that returned 0. -/
def ClientCall.executed : ClientCall → Option String
  | .query stmt true => some stmt
  | _ => none

/-- The statements for which `mysql_query` returned 0. -/
def executed (t : Trace) : List String := t.filterMap ClientCall.executed

@[simp] theorem executed_append (t t' : Trace) : executed (t ++ t') = executed t ++ executed t' :=
  List.filterMap_append

section Save

variable (env : Environment)

/-- Connecting makes no call of `mysql_query`. -/
theorem connectDbWithExcept_executed (uri : String) (t : Trace) :
    executed (connectDbWithExcept env uri t).2 = executed t := by
  rcases connection env uri t with
    hi | ⟨hi, -, params, hp⟩ | ⟨hi, params, hp⟩ | ⟨params, hi, hp, hc⟩ | ⟨params, hall⟩
  · rw [connectDbWithExcept_initFailed hi]
    simp [executed, ClientCall.executed]
  · rw [connectDbWithExcept_unreadable hi hp]
    simp [executed, ClientCall.executed]
  · rw [connectDbWithExcept_rejected hi hp]
    simp [executed, ClientCall.executed]
  · rw [connectDbWithExcept_refused hi hp hc]
    simp [executed, ClientCall.executed]
  · rw [connectDbWithExcept_connected hall]
    simp [executed, ClientCall.executed, connectCalls]

/-- After the calls `t` there is a connection, and `mysql_query` returns 0 for the statement. -/
def Sent (env : Environment) (a : Alarm) (t : Trace) : Prop :=
  ∃ params, Connected env a.uri t params ∧ env.query (t ++ connectCalls params) a.stmt = true

/-- How a call of `save_alarm_to_db` ends. -/
inductive Saving (env : Environment) (a : Alarm) (t : Trace) : Bool → Trace → Prop
  /-- There is no connection, or `mysql_query` fails. -/
  | unsent {t' : Trace} (hno : ¬ Sent env a t) (h : executed t' = executed t) :
    Saving env a t false t'
  /-- `mysql_query` returns 0, after the calls `u`. -/
  | sent {t' u : Trace} (hq : env.query u a.stmt = true)
    (h : executed t' = executed t ++ [a.stmt]) :
    Saving env a t (decide (env.affectedRows (u ++ [.query a.stmt true]) = 1)) t'

theorem saveAlarmToDb_connected (a : Alarm) {t : Trace} {params : DbParams}
    (hconn : Connected env a.uri t params) : ∃ saved t',
    saveAlarmToDb env a.type a.code a.uri t = (.returned saved, t') ∧ Saving env a t saved t' := by
  have hrun : connectDbWithExcept env a.uri t = (.returned (), t ++ connectCalls params) :=
    connectDbWithExcept_connected hconn
  have hcalls : executed (t ++ connectCalls params) = executed t := by
    simp [executed, ClientCall.executed, connectCalls]
  cases hq : env.query (t ++ connectCalls params) (alarmQuery a.type a.code) with
  | false =>
    have hno : ¬ Sent env a t := by
      rintro ⟨params', hconn', hq'⟩
      rw [← hconn.unique hconn', Alarm.stmt, hq] at hq'
      cases hq'
    refine ⟨false, t ++ connectCalls params ++ [.query a.stmt false, .error, .close], ?_,
      .unsent hno ?_⟩
    · simp only [saveAlarmToDb, Comp.tryCatch_apply, Comp.bind_apply, hrun,
        queryDbWithExcept_failed env hq]
      exact saveAlarmClauses_leavesHandle (leavesHandle_attach (by decide) _) _
    · rw [executed_append, hcalls]
      simp [executed, ClientCall.executed]
  | true =>
    have hsent (rows : UInt64) (l : Trace) (hl : executed l = []) :
        executed (t ++ connectCalls params ++ [.query a.stmt true] ++ [.affectedRows rows] ++ l)
          = executed t ++ [a.stmt] := by
      simp only [executed_append, hcalls, hl, List.append_nil]
      simp [executed, ClientCall.executed]
    obtain ⟨rows, hrows⟩ : ∃ rows, env.affectedRows
        (t ++ connectCalls params ++ [.query (alarmQuery a.type a.code) true]) = rows := ⟨_, rfl⟩
    have hends : ∃ l, executed l = [] ∧ saveAlarmToDb env a.type a.code a.uri t =
        (.returned (decide (rows = 1)),
          t ++ connectCalls params ++ [.query a.stmt true] ++ [.affectedRows rows] ++ l) := by
      simp only [saveAlarmToDb, Comp.tryCatch_apply, Comp.bind_apply, hrun,
        queryDbWithExcept_ok env hq, affectedRowsDb_apply, hrows]
      by_cases hone : rows = 1
      · rw [decide_eq_true hone]
        exact ⟨[.close], rfl, rfl⟩
      · rw [decide_eq_false hone]
        exact ⟨[], rfl, by rw [List.append_nil]; rfl⟩
    obtain ⟨l, hl, hall⟩ := hends
    rw [← hrows] at hall
    exact ⟨_, _, hall, .sent hq (hsent _ l hl)⟩

theorem saveAlarmToDb_saving (a : Alarm) (t : Trace) : ∃ saved t',
    saveAlarmToDb env a.type a.code a.uri t = (.returned saved, t') ∧ Saving env a t saved t' := by
  by_cases hn : ∃ params, Connected env a.uri t params
  · obtain ⟨params, hconn⟩ := hn
    exact saveAlarmToDb_connected env a hconn
  · obtain ⟨e, t', hthrew, hleaves, -⟩ := connectDbWithExcept_failed hn
    have hnone := connectDbWithExcept_executed env a.uri t
    rw [hthrew] at hnone
    exact ⟨false, t', (Comp.tryCatch_threw (Comp.bind_threw hthrew _) _).trans
      (saveAlarmClauses_leavesHandle hleaves t'),
      .unsent (fun ⟨params, hconn, _⟩ ↦ hn ⟨params, hconn⟩) hnone⟩

end Save

/-! ## Any number of alarms -/

/-- Alarms that are saved one after another. -/
def saveAlarms (env : Environment) : List Alarm → Comp Trace Exception (List Bool)
  | [] => pure []
  | a :: l => do
    let saved ← saveAlarmToDb env a.type a.code a.uri
    let rest ← saveAlarms env l
    return saved :: rest

/-- The alarms that were answered with true. -/
def savedAlarms (alarms : List Alarm) (answers : List Bool) : List Alarm :=
  ((alarms.zip answers).filter (·.2)).map (·.1)

/-- After an insert for which `mysql_query` returned 0, the server reports one row. -/
def ReportsRow (env : Environment) : Prop :=
  ∀ (a : Alarm) (t : Trace), env.query t a.stmt = true →
    env.affectedRows (t ++ [.query a.stmt true]) = 1

/-- Every connection is made, `mysql_query` returns 0 for every insert, and its row is reported. -/
structure Reliable (env : Environment) (alarms : List Alarm) : Prop where
  sent : ∀ a ∈ alarms, ∀ t, Sent env a t
  reported : ReportsRow env

theorem mem_of_mem_savedAlarms {alarms : List Alarm} {answers : List Bool} {a : Alarm}
    (h : a ∈ savedAlarms alarms answers) : a ∈ alarms := by
  obtain ⟨⟨b, answer⟩, hb, rfl⟩ := List.mem_map.mp h
  exact (List.of_mem_zip (List.mem_filter.mp hb).1).1

theorem saveAlarms_executed (env : Environment) (alarms : List Alarm) (t : Trace) :
    ∃ answers t' stored, saveAlarms env alarms t = (.returned answers, t') ∧
      answers.length = alarms.length ∧ executed t' = executed t ++ stored ∧
      List.Sublist ((savedAlarms alarms answers).map Alarm.stmt) stored ∧
      List.Sublist stored (alarms.map Alarm.stmt) ∧
      (ReportsRow env → stored = (savedAlarms alarms answers).map Alarm.stmt) ∧
      (Reliable env alarms → savedAlarms alarms answers = alarms) := by
  induction alarms generalizing t with
  | nil =>
    exact ⟨[], t, [], rfl, rfl, (List.append_nil _).symm, .slnil, .slnil, fun _ ↦ rfl, fun _ ↦ rfl⟩
  | cons a l ih =>
    obtain ⟨saved, t₁, hfirst, hsaving⟩ := saveAlarmToDb_saving env a t
    obtain ⟨answers, t₂, stored, hrest, hlength, hexecuted, hsaved, hraised, hreports, hall⟩ :=
      ih t₁
    have hrun : saveAlarms env (a :: l) t = (.returned (saved :: answers), t₂) := by
      rw [saveAlarms, Comp.bind_returned hfirst, Comp.bind_returned hrest]
      rfl
    cases hsaving with
    | unsent hno h =>
      exact ⟨false :: answers, t₂, stored, hrun, congrArg Nat.succ hlength, h ▸ hexecuted, hsaved,
        hraised.cons a.stmt, hreports, fun hr ↦ absurd (hr.sent a List.mem_cons_self t) hno⟩
    | @sent _ u hq h =>
      have hstored : executed t₂ = executed t ++ (a.stmt :: stored) := by
        rw [hexecuted, h, List.append_assoc, List.singleton_append]
      refine ⟨_, t₂, a.stmt :: stored, hrun, congrArg Nat.succ hlength, hstored, ?_,
        hraised.cons_cons a.stmt, fun hrow ↦ ?_, fun hr ↦ ?_⟩
      · by_cases hone : env.affectedRows (u ++ [.query a.stmt true]) = 1
        · rw [decide_eq_true hone]
          exact hsaved.cons_cons a.stmt
        · rw [decide_eq_false hone]
          exact hsaved.cons a.stmt
      · rw [decide_eq_true (hrow a u hq)]
        exact congrArg (a.stmt :: ·) (hreports hrow)
      · rw [decide_eq_true (hr.reported a u hq)]
        have hl : Reliable env l :=
          ⟨fun b hb ↦ hr.sent b (List.mem_cons_of_mem a hb), hr.reported⟩
        exact congrArg (a :: ·) (hall hl)

/-- **Which alarms are stored.**  All calls return.  The statements for which `mysql_query` returned
0 are of alarms that were raised, each once at most and in their order, and those of the alarms
answered with true are among them.  If the server reports the rows of these inserts there are no
others, and then the types and codes that are stored are those of the alarms answered with true.  If
nothing fails, these are all. -/
theorem saveAlarms_stored (env : Environment) (alarms : List Alarm) (t : Trace) :
    ∃ answers t' stored, saveAlarms env alarms t = (.returned answers, t') ∧
      answers.length = alarms.length ∧ executed t' = executed t ++ stored ∧
      List.Sublist ((savedAlarms alarms answers).map Alarm.stmt) stored ∧
      List.Sublist stored (alarms.map Alarm.stmt) ∧
      (ReportsRow env → stored = (savedAlarms alarms answers).map Alarm.stmt ∧
        ((∀ a ∈ alarms, a.type ≠ '\x00') → ∀ l : List Alarm, l.map Alarm.stmt = stored →
          l.map Alarm.row = (savedAlarms alarms answers).map Alarm.row)) ∧
      (Reliable env alarms → savedAlarms alarms answers = alarms) := by
  obtain ⟨answers, t', stored, hrun, hlength, hexecuted, hsaved, hraised, hreports, hall⟩ :=
    saveAlarms_executed env alarms t
  refine ⟨answers, t', stored, hrun, hlength, hexecuted, hsaved, hraised,
    fun hrow ↦ ⟨hreports hrow, fun htypes l hl ↦ ?_⟩, hall⟩
  have hsame : (savedAlarms alarms answers).map Alarm.stmt = l.map Alarm.stmt :=
    (hreports hrow).symm.trans hl.symm
  exact (row_eq_of_stmt (fun a ha ↦ htypes a (mem_of_mem_savedAlarms ha)) hsame).symm

end Mariadb
end XaMain
