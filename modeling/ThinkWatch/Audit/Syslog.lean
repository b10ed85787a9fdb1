import ThinkWatch.Lib.Lines
import ThinkWatch.Lib.Syslog
import ThinkWatch.Policy.Document

/-!
# Syslog forwarders

`build_syslog_message` and `parse_syslog_facility` of `crates/common/src/audit/forwarders.rs`. A
datagram is a message; on TCP a message ends with the end of its line. The arithmetic is that of
`u8`, which panics on overflow or wraps, as the build says.
-/

namespace ThinkWatch.Audit

open Lib Policy

/-- `Value::as_u64`. -/
def asU64 : Json → Option Nat
  | .int n => if 0 ≤ n ∧ n < 2 ^ 64 then some n.toNat else none
  | _ => none

def parseSyslogFacility (config : Json) : UInt8 :=
  match (config.get "facility").bind asU64 with
  | some v => if v < 2 ^ 8 then UInt8.ofNat v else 16
  | none => 16

/-- What an `AuditEntry` tells a syslog message. -/
structure SyslogFields where
  userId : Option (List Char)
  action : List Char
  resource : Option (List Char)
  ipAddress : Option (List Char)
  createdAt : List Char
deriving DecidableEq, Repr

def orDash (field : Option (List Char)) : List Char := field.getD ['-']

/-- `a * b` of `u8`. -/
def mulU8 (checks : Bool) (a b : UInt8) : Option UInt8 :=
  if checks ∧ 2 ^ 8 ≤ a.toNat * b.toNat then none else some (a * b)

/-- `a + b` of `u8`. -/
def addU8 (checks : Bool) (a b : UInt8) : Option UInt8 :=
  if checks ∧ 2 ^ 8 ≤ a.toNat + b.toNat then none else some (a + b)

def structuredData (entry : SyslogFields) : List Char :=
  "[audit@0 user_id=\"".toList ++ (orDash entry.userId ++ ("\" action=\"".toList ++ (entry.action ++
    ("\" resource=\"".toList ++ (orDash entry.resource ++ ("\" ip=\"".toList ++
      (orDash entry.ipAddress ++ "\"]".toList)))))))

def buildSyslogMessage (checks : Bool) (facility : UInt8) (entry : SyslogFields) (newline : Bool) :
    Option (List Char) := do
  let severity := 6
  let priority ← (mulU8 checks facility 8).bind fun p => addU8 checks p severity
  let message := "<".toList ++ (Nat.toDigits 10 priority.toNat ++ (">1 ".toList ++ (entry.createdAt ++
    (" think-watch audit - ".toList ++ (entry.action ++ (" ".toList ++ (structuredData entry ++
      (" ".toList ++ (entry.action ++ (" on ".toList ++ orDash entry.resource))))))))))
  some (if newline then message ++ ['\n'] else message)

/-- What the collector takes for the only record of a message. -/
def Framed (tcp : Bool) (message record : List Char) : Prop :=
  if tcp then segments message = ([record], []) else message = record

/-- The parameters of the structured data. -/
def auditParams (entry : SyslogFields) : List (List Char × List Char) :=
  [("user_id".toList, orDash entry.userId), ("action".toList, entry.action),
    ("resource".toList, orDash entry.resource), ("ip".toList, orDash entry.ipAddress)]

/-- The message is one record, and what it is to tell can be read back. -/
def Readable (checks : Bool) (facility : UInt8) (entry : SyslogFields) (tcp : Bool) : Prop :=
  ∃ message text record, buildSyslogMessage checks facility entry tcp = some message ∧
    Framed tcp message text ∧ Syslog.parse text = some record ∧
    record.priority = facility.toNat * 8 + 6 ∧ record.msgId = entry.action ∧
    record.data = [⟨"audit@0".toList, auditParams entry⟩]

/-- A value that reads the same with and without escapes, and stays on its line on TCP. -/
def Plain (tcp : Bool) (value : List Char) : Prop :=
  (∀ c ∈ value, Syslog.isSpecial c = false) ∧ (tcp = true → '\n' ∉ value)

structure Fits (facility : UInt8) (entry : SyslogFields) (tcp : Bool) : Prop where
  facility : facility.toNat ≤ 23
  createdAt : Syslog.isTimestamp entry.createdAt = true
  action : Syslog.isField 32 entry.action = true
  values : ∀ p ∈ auditParams entry, Plain tcp p.2

variable {checks tcp newline : Bool} {facility p : UInt8} {entry : SyslogFields}
  {message text value : List Char} {record : Syslog.Record}

/-! ## The text of a message -/

/-- The priority without the panic and the wrap. -/
theorem priority_of_le (checks : Bool) (h : facility.toNat ≤ 23) :
    ∃ p, (mulU8 checks facility 8).bind (fun p => addU8 checks p 6) = some p ∧
      p.toNat = facility.toNat * 8 + 6 := by
  have hmul : (facility * 8).toNat = facility.toNat * 8 := by
    rw [UInt8.toNat_mul]
    exact Nat.mod_eq_of_lt (by show facility.toNat * 8 < 256; omega)
  have hadd : (facility * 8 + 6).toNat = facility.toNat * 8 + 6 := by
    rw [UInt8.toNat_add, hmul]
    exact Nat.mod_eq_of_lt (by show facility.toNat * 8 + 6 < 256; omega)
  refine ⟨facility * 8 + 6, ?_, hadd⟩
  rw [mulU8, if_neg fun hover => ?_, Option.bind_some, addU8, if_neg fun hover => ?_]
  · have hover' : 256 ≤ (facility * 8).toNat + 6 := hover.2
    omega
  · have hover' : 256 ≤ facility.toNat * 8 := hover.2
    omega

/-- A message in the order of the fields of a record. -/
def syslogText (priority : Nat) (entry : SyslogFields) : List Char :=
  '<' :: (Nat.toDigits 10 priority ++ '>' :: (['1'] ++ ' ' :: (entry.createdAt ++ ' ' ::
    ("think-watch".toList ++ ' ' :: ("audit".toList ++ ' ' :: (['-'] ++ ' ' :: (entry.action ++ ' ' ::
      (structuredData entry ++
        Syslog.writeMsg (some (entry.action ++ (" on ".toList ++ orDash entry.resource)))))))))))

theorem build_eq (checks : Bool) (facility : UInt8) (entry : SyslogFields) (newline : Bool) :
    buildSyslogMessage checks facility entry newline =
      ((mulU8 checks facility 8).bind fun p => addU8 checks p 6).map fun p =>
        syslogText p.toNat entry ++ if newline then ['\n'] else [] := by
  have hmark : ">1 ".toList = ['>', '1', ' '] := by decide
  have hsender : " think-watch audit - ".toList =
      ' ' :: ("think-watch".toList ++ ' ' :: ("audit".toList ++ [' ', '-', ' '])) := by decide
  simp only [buildSyslogMessage]
  generalize (mulU8 checks facility 8).bind (fun p => addU8 checks p 6) = priority
  cases priority with
  | none => rfl
  | some p =>
    cases newline <;>
      simp [syslogText, hmark, hsender, Syslog.writeMsg, show "<".toList = ['<'] by decide,
        show " ".toList = [' '] by decide]

/-! ## Values with and without escapes -/

theorem escape_eq_self (h : ∀ c ∈ value, Syslog.isSpecial c = false) :
    Syslog.escape value = value := by
  induction value with
  | nil => rfl
  | cons c value ih =>
    rw [List.forall_mem_cons] at h
    rw [Syslog.escape_cons, h.1, ih h.2]
    rfl

theorem quote_ne_backslashes {k : Nat} (hk : 0 < k) (value after rest : List Char) :
    value ++ '"' :: after ≠ List.replicate k '\\' ++ Syslog.escape value ++ rest := by
  induction value generalizing k with
  | nil =>
    obtain ⟨k, rfl⟩ := Nat.exists_eq_succ_of_ne_zero (Nat.ne_of_gt hk)
    exact fun h => absurd (List.cons.inj h).1 (by decide)
  | cons c value ih =>
    intro h
    obtain ⟨k, rfl⟩ := Nat.exists_eq_succ_of_ne_zero (Nat.ne_of_gt hk)
    obtain ⟨rfl, h⟩ := List.cons.inj h
    -- the backslash of the value is escaped, so that one more is owed
    refine ih (k := k + 2) (by omega) ?_
    have hescape : Syslog.escape ('\\' :: value) = '\\' :: '\\' :: Syslog.escape value := rfl
    rw [List.replicate_succ', List.replicate_succ']
    simpa [hescape] using h

/-- A value that stands unescaped where its escaped form is read needs no escape. -/
theorem plain_of_unescaped {after rest : List Char}
    (h : value ++ '"' :: after = Syslog.escape value ++ rest) :
    ∀ c ∈ value, Syslog.isSpecial c = false := by
  induction value with
  | nil => nofun
  | cons c value ih =>
    rw [Syslog.escape_cons] at h
    cases hc : Syslog.isSpecial c with
    | false =>
      rw [hc] at h
      exact List.forall_mem_cons.mpr ⟨hc, ih (List.cons.inj h).2⟩
    | true =>
      rw [hc] at h
      obtain ⟨rfl, h⟩ := List.cons.inj h
      exact absurd (by simpa using h) (quote_ne_backslashes (k := 1) Nat.one_pos value after rest)

/-! ## Reading a message back -/

/-- The record that a message is read as. -/
def recordOf (facility : UInt8) (entry : SyslogFields) : Syslog.Record where
  priority := facility.toNat * 8 + 6
  timestamp := entry.createdAt
  hostname := "think-watch".toList
  appName := "audit".toList
  procId := ['-']
  msgId := entry.action
  data := [⟨"audit@0".toList, auditParams entry⟩]
  msg := some (entry.action ++ (" on ".toList ++ orDash entry.resource))

theorem values_eq (h : ∀ p ∈ auditParams entry, Plain tcp p.2) :
    Plain tcp (orDash entry.userId) ∧ Plain tcp entry.action ∧ Plain tcp (orDash entry.resource) ∧
      Plain tcp (orDash entry.ipAddress) := by
  simpa [auditParams] using h

/-- The structured data with its values as they are read. -/
theorem writeData_audit (entry : SyslogFields) :
    Syslog.writeData [⟨"audit@0".toList, auditParams entry⟩] =
      "[audit@0 user_id=\"".toList ++ (Syslog.escape (orDash entry.userId) ++
        ("\" action=\"".toList ++ (Syslog.escape entry.action ++ ("\" resource=\"".toList ++
          (Syslog.escape (orDash entry.resource) ++ ("\" ip=\"".toList ++
            (Syslog.escape (orDash entry.ipAddress) ++ "\"]".toList))))))) := by
  have hid : "[audit@0 user_id=\"".toList = '[' :: ("audit@0".toList ++ ' ' :: ("user_id".toList ++
    ['=', '"'])) := by decide
  have ha : "\" action=\"".toList = '"' :: ' ' :: ("action".toList ++ ['=', '"']) := by decide
  have hr : "\" resource=\"".toList = '"' :: ' ' :: ("resource".toList ++ ['=', '"']) := by decide
  have hi : "\" ip=\"".toList = '"' :: ' ' :: ("ip".toList ++ ['=', '"']) := by decide
  have hend : "\"]".toList = ['"', ']'] := by decide
  rw [hid, ha, hr, hi, hend, Syslog.writeData, if_neg (List.cons_ne_nil _ _), auditParams]
  simp only [List.flatMap_cons, List.flatMap_nil, Syslog.Element.write, Syslog.writeParams_cons,
    List.append_assoc, List.cons_append, List.nil_append, List.append_nil]
  rfl

theorem writeData_eq (h : Fits facility entry tcp) :
    Syslog.writeData [⟨"audit@0".toList, auditParams entry⟩] = structuredData entry := by
  obtain ⟨huser, haction, hresource, hip⟩ := values_eq h.values
  refine (writeData_audit entry).trans ?_
  rw [escape_eq_self huser.1, escape_eq_self haction.1, escape_eq_self hresource.1,
    escape_eq_self hip.1]
  delta structuredData
  exact rfl

theorem isValid_recordOf (h : Fits facility entry tcp) : (recordOf facility entry).isValid = true := by
  have hpriority : facility.toNat * 8 + 6 ≤ 191 := by
    have := h.facility
    omega
  have hnames : Syslog.Element.isValid ⟨"audit@0".toList, auditParams entry⟩ = true := by
    have hid : Syslog.isName "audit@0".toList = true := by decide
    have hparams : [("user_id" : String), "action", "resource", "ip"].all
        (fun s => Syslog.isName s.toList) = true := by decide
    simp only [List.all_cons, List.all_nil, Bool.and_true, Bool.and_eq_true] at hparams
    simp only [Syslog.Element.isValid, auditParams, List.all_cons, List.all_nil, Bool.and_true,
      Bool.and_eq_true]
    exact ⟨hid, hparams⟩
  have hheader : Syslog.isField 255 "think-watch".toList = true ∧
      Syslog.isField 48 "audit".toList = true ∧ Syslog.isField 128 ['-'] = true := by decide
  have hids : ["audit@0".toList].Nodup := by simp
  simp only [Syslog.Record.isValid, recordOf, Bool.and_eq_true, List.all_cons, List.all_nil,
    Bool.and_true]
  exact ⟨⟨⟨⟨⟨⟨⟨decide_eq_true hpriority, h.createdAt⟩, hheader.1⟩, hheader.2.1⟩, hheader.2.2⟩,
    h.action⟩, hnames⟩, decide_eq_true hids⟩

theorem write_recordOf (h : Fits facility entry tcp) :
    (recordOf facility entry).write = syslogText (facility.toNat * 8 + 6) entry := by
  have hdata : Syslog.writeData (recordOf facility entry).data = structuredData entry := writeData_eq h
  rw [Syslog.Record.write, hdata]
  rfl

theorem mem_structuredData {c : Char} :
    c ∈ structuredData entry ↔ (∃ p ∈ auditParams entry, c ∈ p.2) ∨ c ∈ "[audit@0 user_id=\"".toList ∨
      c ∈ "\" action=\"".toList ∨ c ∈ "\" resource=\"".toList ∨ c ∈ "\" ip=\"".toList ∨
      c ∈ "\"]".toList := by
  delta structuredData
  simp only [List.mem_append, auditParams, List.exists_mem_cons_iff, List.not_mem_nil, false_and,
    exists_false, or_false]
  tauto

theorem newline_notMem_syslogText (h : Fits facility entry true) (n : Nat) :
    '\n' ∉ syslogText n entry := by
  have hprintable {field : List Char} (hfield : field.all Syslog.isPrintable = true) : '\n' ∉ field :=
    fun hmem => absurd (List.all_eq_true.mp hfield '\n' hmem) (by decide)
  have htime := hprintable (Syslog.all_isPrintable_of_isTimestamp h.createdAt)
  have haction := hprintable (Syslog.all_isPrintable_of_isField h.action)
  have hresource : '\n' ∉ orDash entry.resource := (values_eq h.values).2.2.1.2 rfl
  have hdigits : '\n' ∉ Nat.toDigits 10 n := fun hmem =>
    absurd (Nat.isDigit_of_mem_toDigits (by decide) (by decide) hmem) (by decide)
  have hdata : '\n' ∉ structuredData entry := by
    rw [mem_structuredData]
    rintro (⟨p, hp, hmem⟩ | hmem)
    · exact (h.values p hp).2 rfl hmem
    · exact absurd hmem (by decide)
  simp only [syslogText, Syslog.writeMsg, List.mem_cons, List.mem_append, List.not_mem_nil, not_or]
  simp [htime, haction, hresource, hdigits, hdata]

theorem readable_of_fits (checks : Bool) (h : Fits facility entry tcp) :
    Readable checks facility entry tcp := by
  obtain ⟨p, hp, hpriority⟩ := priority_of_le checks h.facility
  refine ⟨syslogText (facility.toNat * 8 + 6) entry ++ if tcp then ['\n'] else [],
    syslogText (facility.toNat * 8 + 6) entry, recordOf facility entry, ?_, ?_, ?_, rfl, rfl, rfl⟩
  · rw [build_eq, hp, ← hpriority]
    rfl
  · cases tcp with
    | true =>
      show segments (syslogText _ entry ++ ['\n']) = _
      rw [segments_line (newline_notMem_syslogText h _)]
      rfl
    | false => exact List.append_nil _
  · rw [Syslog.parse_iff]
    exact ⟨isValid_recordOf h, write_recordOf h⟩

/-! ## What can be read back -/

/-- The first value where the escaped values are read is plain, and the rest can be compared. -/
theorem plain_of_eq {quote after rest : List Char}
    (h : Syslog.escape value ++ ('"' :: quote ++ rest) = value ++ ('"' :: quote ++ after)) :
    (∀ c ∈ value, Syslog.isSpecial c = false) ∧ rest = after := by
  have hplain := plain_of_unescaped h.symm
  rw [escape_eq_self hplain] at h
  exact ⟨hplain, List.append_cancel_left (List.append_cancel_left h)⟩

theorem plain_of_data {after rest : List Char}
    (h : Syslog.writeData [⟨"audit@0".toList, auditParams entry⟩] ++ rest =
      structuredData entry ++ after) :
    ∀ p ∈ auditParams entry, ∀ c ∈ p.2, Syslog.isSpecial c = false := by
  rw [writeData_audit] at h
  delta structuredData at h
  simp only [List.append_assoc] at h
  have ha : "\" action=\"".toList = '"' :: " action=\"".toList := by decide
  have hr : "\" resource=\"".toList = '"' :: " resource=\"".toList := by decide
  have hi : "\" ip=\"".toList = '"' :: " ip=\"".toList := by decide
  have hend : "\"]".toList = '"' :: "]".toList := by decide
  rw [ha, hr, hi, hend] at h
  obtain ⟨huser, h⟩ := plain_of_eq (List.append_cancel_left h)
  obtain ⟨haction, h⟩ := plain_of_eq h
  obtain ⟨hresource, h⟩ := plain_of_eq h
  obtain ⟨hip, -⟩ := plain_of_eq h
  simp only [auditParams, List.forall_mem_cons]
  exact ⟨huser, haction, hresource, hip, nofun⟩

/-- A record that looks like the message has its priority, its timestamp and its structured data. -/
theorem fields_of_write {n : Nat} (hts : ' ' ∉ entry.createdAt) (hvalid : record.isValid = true)
    (hwrite : record.write = syslogText n entry) (hmsgId : record.msgId = entry.action) :
    record.priority = n ∧ record.timestamp = entry.createdAt ∧
      ∃ after, Syslog.writeData record.data ++ Syslog.writeMsg record.msg =
        structuredData entry ++ after := by
  simp only [Syslog.Record.isValid, Bool.and_eq_true] at hvalid
  obtain ⟨⟨⟨⟨⟨⟨⟨-, htime⟩, hhost⟩, happ⟩, hproc⟩, -⟩, -⟩, -⟩ := hvalid
  rw [Syslog.Record.write, syslogText] at hwrite
  obtain ⟨hdigits, h⟩ := segment_inj (Syslog.bracket_notMem_toDigits _)
    (Syslog.bracket_notMem_toDigits _) (List.cons.inj hwrite).2
  obtain ⟨-, h⟩ := segment_inj (by decide) (by decide) h
  obtain ⟨htimestamp, h⟩ := segment_inj
    (Syslog.space_notMem (Syslog.all_isPrintable_of_isTimestamp htime)) hts h
  obtain ⟨-, h⟩ := segment_inj (Syslog.space_notMem_of_isField hhost) (by decide) h
  obtain ⟨-, h⟩ := segment_inj (Syslog.space_notMem_of_isField happ) (by decide) h
  obtain ⟨-, h⟩ := segment_inj (Syslog.space_notMem_of_isField hproc) (by decide) h
  rw [hmsgId] at h
  refine ⟨?_, htimestamp, _, (List.cons.inj (List.append_cancel_left h)).2⟩
  rw [← Nat.ofDigitChars_toDigits (b := 10) (n := record.priority) (by decide) (by decide), hdigits,
    Nat.ofDigitChars_toDigits (by decide) (by decide)]

theorem text_of_framed {n : Nat}
    (h : Framed tcp (syslogText n entry ++ if tcp then ['\n'] else []) text) :
    text = syslogText n entry ∧ (tcp = true → '\n' ∉ text) := by
  cases tcp with
  | true =>
    have hseg : segments (syslogText n entry ++ ['\n']) = ([text], []) := h
    have hjoin := unlines_segments (syslogText n entry ++ ['\n'])
    rw [hseg] at hjoin
    refine ⟨by simpa using hjoin, fun _ => ?_⟩
    have hline := (notMem_segments (syslogText n entry ++ ['\n'])).1 text
    rw [hseg] at hline
    exact hline (List.mem_singleton_self text)
  | false =>
    have heq : syslogText n entry ++ [] = text := h
    rw [List.append_nil] at heq
    exact ⟨heq.symm, nofun⟩

theorem mem_syslogText {n : Nat} {c : Char} (h : c ∈ structuredData entry) :
    c ∈ syslogText n entry := by
  simp only [syslogText, List.mem_cons, List.mem_append]
  simp [h]

/--
A message is one record from which everything can be read back if and only if its facility is one of
the standard's, its time and its action are what the standard allows there, and no value holds a
character that needs an escape or, on TCP, ends the line. The time is written by the clock's library
and holds no space.
-/
theorem syslog_record_iff (checks : Bool) (config : Json) (entry : SyslogFields) (tcp : Bool)
    (hts : ' ' ∉ entry.createdAt) :
    Readable checks (parseSyslogFacility config) entry tcp ↔
      Fits (parseSyslogFacility config) entry tcp := by
  refine ⟨fun h => ?_, readable_of_fits checks⟩
  obtain ⟨message, text, record, hbuild, hframed, hparse, hpriority, hmsgId, hdata⟩ := h
  rw [build_eq] at hbuild
  obtain ⟨p, -, rfl⟩ := Option.map_eq_some_iff.mp hbuild
  obtain ⟨rfl, hline⟩ := text_of_framed hframed
  obtain ⟨hvalid, hwrite⟩ := Syslog.parse_iff.mp hparse
  obtain ⟨-, htime, after, hwritten⟩ := fields_of_write hts hvalid hwrite hmsgId
  simp only [Syslog.Record.isValid, Bool.and_eq_true, decide_eq_true_eq] at hvalid
  obtain ⟨⟨⟨⟨⟨⟨⟨hle, htimestamp⟩, -⟩, -⟩, -⟩, hfield⟩, -⟩, -⟩ := hvalid
  rw [hdata] at hwritten
  exact
    { facility := by omega
      createdAt := htime ▸ htimestamp
      action := hmsgId ▸ hfield
      values := fun q hq => ⟨plain_of_data hwritten q hq, fun htcp hmem =>
        hline htcp (mem_syslogText (mem_structuredData.mpr (Or.inl ⟨q, hq, hmem⟩)))⟩ }

def login : SyslogFields where
  userId := some "u1".toList
  action := "auth.login".toList
  resource := none
  ipAddress := some "10.0.0.1".toList
  createdAt := "2026-04-15T08:30:00.123456+00:00".toList

theorem syslog_record_login :
    Readable false (parseSyslogFacility (.obj [("facility", .int 17)])) login true ↔
      Fits (parseSyslogFacility (.obj [("facility", .int 17)])) login true :=
  syslog_record_iff false (.obj [("facility", .int 17)]) login true (by decide)

def quotedLogin : SyslogFields := { login with userId := some "u\"1".toList }

/-- A quote in the user's id ends the value of the parameter. -/
theorem quoted_user_not_readable :
    ¬ Readable false (parseSyslogFacility .null) quotedLogin false := by
  rintro ⟨message, text, record, hbuild, hframed, hparse, -⟩
  obtain rfl : message = text := hframed
  have hnone : (buildSyslogMessage false (parseSyslogFacility .null) quotedLogin false).bind
      Syslog.parse = none := by decide +kernel
  rw [hbuild, Option.bind_some, hparse] at hnone
  cases hnone

end ThinkWatch.Audit
