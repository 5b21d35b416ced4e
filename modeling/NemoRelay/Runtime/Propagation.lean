import Mathlib.Data.BitVec
import NemoRelay.Error
import NemoRelay.Lib.Hex

/-!
# Propagation contexts

`PropagationContext`, its validation and normalization, and the W3C trace-context headers of
`scope_stack.rs` and `trace.rs`. The tracing library that parses and writes the headers is a
parameter, `W3cPropagator`, with the part of its documented behaviour that the runtime relies on.
-/

namespace NemoRelay

/-- Sixteen bytes, most significant first. -/
abbrev Uuid := BitVec 128

abbrev TraceId := BitVec 128

abbrev SpanId := BitVec 64

variable (uuid : Uuid)

open Hex

namespace Uuid

/-- `Uuid::as_bytes`. -/
def asBytes (uuid : Uuid) : List Nat := Hex.bytes 16 uuid.toNat

def relayTraceId (uuid : Uuid) : TraceId := uuid

def relaySpanId (uuid : Uuid) : SpanId := uuid.setWidth 64

/-- `is_usable_relay_identifier`: one of the last eight bytes is not zero. -/
def isUsable (uuid : Uuid) : Bool := (uuid.asBytes.drop 8).any fun byte => byte != 0

theorem isUsable_iff : uuid.isUsable = true ↔ uuid.relaySpanId ≠ 0 := by
  have hbytes : uuid.asBytes.drop 8 = bytes 8 uuid.toNat := drop_bytes 8 8 uuid.toNat
  rw [isUsable, hbytes, any_bytes_ne_zero, not_iff_not, ← BitVec.toNat_inj]
  simp [relaySpanId]

theorem relayTraceId_ne_zero {uuid : Uuid} (h : uuid.isUsable = true) : uuid.relayTraceId ≠ 0 := by
  intro h0
  rw [isUsable_iff] at h
  apply h
  change uuid = 0 at h0
  subst h0
  decide

end Uuid

/-- `format_traceparent`: both identifiers are written byte by byte. -/
def formatTraceparent (traceUuid spanUuid : Uuid) : String :=
  String.ofList ("00-".toList ++ traceUuid.asBytes.flatMap (Hex.digits 2) ++ "-".toList ++
    (spanUuid.asBytes.drop 8).flatMap (Hex.digits 2) ++ "-01".toList)

/-- Vendor entries of a `tracestate` header, in order. -/
abbrev TraceState := List (String × String)

def TraceState.header (state : TraceState) : String :=
  ",".intercalate (state.map fun entry => entry.1 ++ "=" ++ entry.2)

structure SpanContext where
  traceId : TraceId
  spanId : SpanId
  traceFlags : BitVec 8
  isRemote : Bool
  traceState : TraceState

def SpanContext.isValid (context : SpanContext) : Bool :=
  context.traceId != 0 && context.spanId != 0

theorem SpanContext.isValid_iff {context : SpanContext} :
    context.isValid = true ↔ context.traceId ≠ 0 ∧ context.spanId ≠ 0 := by
  rw [SpanContext.isValid, Bool.and_eq_true, bne_iff_ne, bne_iff_ne]

/-- `00-{trace id}-{span id}-{flags}` in lower-case hexadecimal. -/
def traceparentHeader (traceId : TraceId) (spanId : SpanId) (flags : BitVec 8) : String :=
  String.ofList ("00-".toList ++ Hex.digits 32 traceId.toNat ++ "-".toList ++
    Hex.digits 16 spanId.toNat ++ "-".toList ++ Hex.digits 2 flags.toNat)

/-- The tracing library's propagator. `extract` gives an invalid context when it cannot read the
headers, and `inject` writes nothing for an invalid one. -/
structure W3cPropagator where
  fromKeyValue : List (String × String) → Option TraceState
  extract : String → Option String → SpanContext
  inject : SpanContext → Option (String × String)
  /-- Of the flags only the sampled bit is written. -/
  inject_valid : ∀ context, context.isValid = true → inject context =
    some (traceparentHeader context.traceId context.spanId (context.traceFlags &&& 1),
      context.traceState.header)
  /-- A header that was written is read back. -/
  extract_written : ∀ traceId spanId flags, traceId ≠ 0 → spanId ≠ 0 →
    extract (traceparentHeader traceId spanId (flags &&& 1)) none =
      { traceId, spanId, traceFlags := flags &&& 1, isRemote := true, traceState := [] }

/-- Read the fixed columns of a version 0 header. -/
def readTraceparent (header : List Char) : Option (TraceId × SpanId × BitVec 8) :=
  if header.take 3 = "00-".toList ∧ (header.drop 35).take 1 = "-".toList ∧
      (header.drop 52).take 1 = "-".toList ∧ header.length = 55 then do
    let traceId ← Hex.read 0 ((header.drop 3).take 32)
    let spanId ← Hex.read 0 ((header.drop 36).take 16)
    let flags ← Hex.read 0 (header.drop 53)
    return (BitVec.ofNat 128 traceId, BitVec.ofNat 64 spanId, BitVec.ofNat 8 flags)
  else none

theorem readTraceparent_columns {trace span flags : List Char} {traceId spanId sampled : Nat}
    (ht : trace.length = 32) (hs : span.length = 16) (hf : flags.length = 2)
    (hrt : read 0 trace = some traceId) (hrs : read 0 span = some spanId)
    (hrf : read 0 flags = some sampled) :
    readTraceparent ("00-".toList ++ trace ++ "-".toList ++ span ++ "-".toList ++ flags) =
      some (BitVec.ofNat 128 traceId, BitVec.ofNat 64 spanId, BitVec.ofNat 8 sampled) := by
  have htrace : ∀ n, 32 ≤ n → trace.drop n = [] := fun n hn =>
    List.drop_eq_nil_of_le (by omega)
  have hspan : span.drop 17 = [] := List.drop_eq_nil_of_le (by omega)
  rw [readTraceparent]
  simp [List.drop_append, ht, hs, hf, hrt, hrs, hrf, htrace, hspan]

theorem readTraceparent_header (traceId : TraceId) (spanId : SpanId) (flags : BitVec 8) :
    readTraceparent (traceparentHeader traceId spanId flags).toList =
      some (traceId, spanId, flags) := by
  have ht : traceId.toNat < 16 ^ 32 := Nat.lt_of_lt_of_eq traceId.isLt (by norm_num)
  have hs : spanId.toNat < 16 ^ 16 := Nat.lt_of_lt_of_eq spanId.isLt (by norm_num)
  have hf : flags.toNat < 16 ^ 2 := Nat.lt_of_lt_of_eq flags.isLt (by norm_num)
  have h := readTraceparent_columns (length_digits 32 _) (length_digits 16 _)
    (length_digits 2 _) (read_digits_of_lt ht) (read_digits_of_lt hs) (read_digits_of_lt hf)
  simp only [BitVec.ofNat_toNat, BitVec.setWidth_eq] at h
  unfold traceparentHeader
  simpa only [String.toList_ofList] using h

/-- The propagator that reads exactly the version 0 headers and keeps no vendor state. -/
def W3cPropagator.version0 : W3cPropagator where
  fromKeyValue := some
  extract traceparent _ :=
    match readTraceparent traceparent.toList with
    | some (traceId, spanId, traceFlags) =>
      { traceId, spanId, traceFlags := traceFlags &&& 1, isRemote := true, traceState := [] }
    | none => { traceId := 0, spanId := 0, traceFlags := 0, isRemote := false, traceState := [] }
  inject context :=
    if context.isValid then
      some (traceparentHeader context.traceId context.spanId (context.traceFlags &&& 1),
        context.traceState.header)
    else none
  inject_valid context h := if_pos h
  extract_written traceId spanId flags _ _ := by
    rw [readTraceparent_header]
    simp [BitVec.and_assoc]

/-- `str::split_once`. -/
def splitOnce (separator : Char) (text : List Char) : Option (List Char × List Char) :=
  if separator ∈ text then
    some (text.takeWhile (· != separator), (text.dropWhile (· != separator)).tail)
  else none

/-- `trim_matches([' ', '\t'])`. -/
def trimBlanks (text : List Char) : List Char :=
  let blank := fun c : Char => c == ' ' || c == '\t'
  ((text.dropWhile blank).reverse.dropWhile blank).reverse

namespace Tracestate

def nameChars (name : List Char) : Bool :=
  name.all fun c => c.isLower || c.isDigit || c == '_' || c == '-' || c == '*' || c == '/'

def lengthIn (low high : Nat) (text : List Char) : Bool :=
  low ≤ text.length && text.length ≤ high

/-- Only ASCII keys are valid, so that counting characters is counting bytes. -/
def validKey (key : List Char) : Bool :=
  match splitOnce '@' key with
  | some (tenant, system) =>
    lengthIn 1 241 tenant && (tenant.head?.any fun c => c.isAlphanum) && nameChars tenant &&
      lengthIn 1 14 system && (system.head?.any fun c => c.isLower) && nameChars system
  | none => lengthIn 1 256 key && (key.head?.any fun c => c.isLower) && nameChars key

def validValue (value : List Char) : Bool :=
  lengthIn 1 256 value &&
    value.all fun c => 0x20 ≤ c.toNat && c.toNat ≤ 0x7e && c != ',' && c != '='

/-- The loop of `parse_w3c_tracestate` over the members from `index` on. -/
def members : Nat → List String → List (List Char) → Option (List (String × String))
  | _, _, [] => some []
  | index, keys, member :: rest =>
    if 32 ≤ index then none
    else if (trimBlanks member).isEmpty then members (index + 1) keys rest
    else
      match splitOnce '=' (trimBlanks member) with
      | none => none
      | some (key, value) =>
        let name := String.ofList key
        if validKey key && !keys.contains name && validValue value then
          (members (index + 1) (name :: keys) rest).map fun entries =>
            (name, String.ofList value) :: entries
        else none

end Tracestate

variable (P : W3cPropagator)

def parseW3cTracestate (header : String) : Option TraceState :=
  (Tracestate.members 0 [] (header.toList.splitOn ',')).bind P.fromKeyValue

/-- Validate and canonicalize a header pair: the traceparent, the tracestate and the span context
that they stand for. -/
def normalizeW3cHeaders (traceparent tracestate : Option String) :
    Option String × Option String × Option SpanContext :=
  match traceparent with
  | none => (none, none, none)
  | some traceparent =>
    let state := (tracestate.bind (parseW3cTracestate P)).map TraceState.header
    let context := P.extract traceparent state
    if context.isValid then
      let canonical := P.inject context
      (canonical.map Prod.fst, (canonical.map Prod.snd).filter (fun value => !value.isEmpty),
        some context)
    else (none, none, none)

def w3cSpanContext (traceparent tracestate : Option String) : Option SpanContext :=
  (normalizeW3cHeaders P traceparent tracestate).2.2

structure PropagationContext where
  version : Nat
  rootUuid : Option Uuid
  parentUuid : Uuid
  traceparent : Option String
  tracestate : Option String

namespace PropagationContext

/-- `PropagationContext::VERSION`. -/
def currentVersion : Nat := 1

def checkIdentifier (name : String) (uuid : Uuid) : Except FlowError Unit :=
  if uuid.isUsable then .ok ()
  else .error (.invalidArgument
    ("propagation context " ++ name ++ " is not a usable Relay identifier"))

def checkVersion (version : Nat) : Except FlowError Unit :=
  if version = currentVersion then .ok ()
  else .error (.invalidArgument ("unsupported propagation context version " ++
    toString version ++ "; expected " ++ toString currentVersion))

variable (context : PropagationContext)

def validate : Except FlowError Unit := do
  checkVersion context.version
  checkIdentifier "parent_uuid" context.parentUuid
  match context.rootUuid with
  | some rootUuid => checkIdentifier "root_uuid" rootUuid
  | none => .ok ()

/-- Discard invalid W3C headers. -/
def normalized : PropagationContext :=
  let headers := normalizeW3cHeaders P context.traceparent context.tracestate
  { context with traceparent := headers.1, tracestate := headers.2.1 }

def toTraceparent : Except FlowError String := do
  context.validate
  match (context.normalized P).traceparent, (context.normalized P).rootUuid with
  | some traceparent, _ => .ok traceparent
  | none, some rootUuid => .ok (formatTraceparent rootUuid context.parentUuid)
  | none, none => .error (.invalidArgument
      "rootless propagation context cannot be converted to traceparent")

/-- What `validate` accepts. -/
structure Valid (context : PropagationContext) : Prop where
  version : context.version = currentVersion
  parent : context.parentUuid.isUsable = true
  root : ∀ rootUuid ∈ context.rootUuid, rootUuid.isUsable = true

theorem checkVersion_eq_ok {version : Nat} :
    checkVersion version = .ok () ↔ version = currentVersion := by
  rw [checkVersion]
  split
  · simp only [*]
  · simp only [*, reduceCtorEq]

theorem checkIdentifier_eq_ok {name : String} {uuid : Uuid} :
    checkIdentifier name uuid = .ok () ↔ uuid.isUsable = true := by
  rw [checkIdentifier]
  split
  · simp only [*]
  · simp only [*, reduceCtorEq]

theorem validate_eq_ok {context : PropagationContext} :
    context.validate = .ok () ↔ context.Valid := by
  rw [validate, check_bind_eq_ok, check_bind_eq_ok, checkVersion_eq_ok, checkIdentifier_eq_ok]
  constructor
  · rintro ⟨hv, hp, hr⟩
    refine ⟨hv, hp, ?_⟩
    intro rootUuid hroot
    rw [hroot] at hr
    exact checkIdentifier_eq_ok.mp hr
  · intro h
    refine ⟨h.version, h.parent, ?_⟩
    cases hroot : context.rootUuid with
    | none => rfl
    | some rootUuid => exact checkIdentifier_eq_ok.mpr (h.root rootUuid hroot)

section ToTraceparent

variable {P : W3cPropagator} {context : PropagationContext}

theorem toTraceparent_of_header {header : String} (h : context.Valid)
    (hheader : (context.normalized P).traceparent = some header) :
    context.toTraceparent P = .ok header := by
  rw [toTraceparent, validate_eq_ok.mpr h, hheader]
  rfl

theorem toTraceparent_of_root {rootUuid : Uuid} (h : context.Valid)
    (hheader : context.traceparent = none) (hroot : context.rootUuid = some rootUuid) :
    context.toTraceparent P = .ok (formatTraceparent rootUuid context.parentUuid) := by
  have hnone : (context.normalized P).traceparent = none := by
    rw [normalized, hheader]
    rfl
  have hsome : (context.normalized P).rootUuid = some rootUuid := hroot
  rw [toTraceparent, validate_eq_ok.mpr h, hnone, hsome]
  rfl

/-- A normalized context without a `traceparent` has no `tracestate` either. -/
theorem tracestate_eq_none (hnorm : context.normalized P = context)
    (hheader : context.traceparent = none) : context.tracestate = none := by
  rw [← hnorm, normalized, hheader]
  rfl

end ToTraceparent

end PropagationContext

theorem Uuid.digits_asBytes :
    uuid.asBytes.flatMap (digits 2) = digits 32 uuid.relayTraceId.toNat := by
  rw [Uuid.asBytes, flatMap_digits_bytes, Uuid.relayTraceId]

theorem Uuid.digits_drop_asBytes :
    (uuid.asBytes.drop 8).flatMap (digits 2) = digits 16 uuid.relaySpanId.toNat := by
  have hbytes : uuid.asBytes.drop 8 = bytes 8 uuid.toNat := drop_bytes 8 8 uuid.toNat
  rw [hbytes, flatMap_digits_bytes]
  exact (digits_mod 16 uuid.toNat).symm

/-- Writing an identifier byte by byte gives the header that the propagator writes. -/
theorem formatTraceparent_eq (traceUuid spanUuid : Uuid) :
    formatTraceparent traceUuid spanUuid =
      traceparentHeader traceUuid.relayTraceId spanUuid.relaySpanId 1 := by
  have hflags : "-01".toList = "-".toList ++ digits 2 (1 : BitVec 8).toNat := by decide
  unfold formatTraceparent traceparentHeader
  simp only [Uuid.digits_asBytes, Uuid.digits_drop_asBytes, hflags, List.append_assoc]

end NemoRelay
