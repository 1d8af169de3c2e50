import RocketMQClient.ExportClients
import RocketMQClient.Library.BinaryRounding

/-!
# The spans that the trace exporter sends

`Export` turns OpenCensus spans into a request of the OpenTelemetry protocol. It builds each
message by hand and attaches it to the one that holds it. The value of an attribute is
attached for a link, but not for an event or for the span itself, and the event made of a
message event is attached to nothing.

An annotation that marks the wait for consumption sets the start of the span. Its attribute
is a number of milliseconds that is multiplied in double precision: it is rounded to 53
significant bits, and so is the product. An attribute of another type fails an assertion, and
a product that does not fit 64 bits is undefined; there is no span then.

A time is given as `absl::ToUnixNanos` returns it, and an identity as `ToHex` writes it.
-/

namespace RocketMQClient
open BinaryRounding

inductive AttributeValueRef
  | string (value : String)
  | int (value : ℤ)
  | bool (value : Bool)
  deriving DecidableEq

abbrev Attributes := List (String × AttributeValueRef)

structure MessageEvent where
  timestamp : ℤ

structure AnnotationEntry where
  timestamp : ℤ := 0
  description : String := ""
  attributes : Attributes := []

structure SpanLink where
  traceId : String := ""
  spanId : String := ""
  attributes : Attributes := []

structure SpanData where
  traceId : String := ""
  spanId : String := ""
  parentSpanId : String := ""
  name : String := ""
  startTime : ℤ := 0
  endTime : ℤ := 0
  messageEvents : List MessageEvent := []
  droppedMessageEvents : ℕ := 0
  annotations : List AnnotationEntry := []
  droppedAnnotations : ℕ := 0
  links : List SpanLink := []
  attributes : Attributes := []
  numAttributesDropped : ℕ := 0
  statusOk : Bool := true
  errorMessage : String := ""

namespace otlp

inductive AnyValue
  | stringValue (value : String)
  | intValue (value : ℤ)
  | boolValue (value : Bool)
  deriving DecidableEq

structure KeyValue where
  key : String := ""
  value : Option AnyValue := none
  deriving DecidableEq

structure Event where
  timeUnixNano : ℕ := 0
  attributes : List KeyValue := []
  deriving DecidableEq

structure Link where
  traceId : String := ""
  spanId : String := ""
  attributes : List KeyValue := []
  deriving DecidableEq

inductive SpanKind
  | unspecified
  | client
  deriving DecidableEq

inductive StatusCode
  | unset
  | ok
  | error
  deriving DecidableEq

structure Status where
  code : StatusCode := .unset
  message : String := ""
  deriving DecidableEq

structure Span where
  traceId : String := ""
  spanId : String := ""
  parentSpanId : String := ""
  name : String := ""
  startTimeUnixNano : ℕ := 0
  endTimeUnixNano : ℕ := 0
  kind : SpanKind := .unspecified
  events : List Event := []
  droppedEventsCount : ℕ := 0
  links : List Link := []
  droppedLinksCount : ℕ := 0
  attributes : List KeyValue := []
  status : Status := {}
  deriving DecidableEq

structure InstrumentationLibrarySpans where
  spans : List Span := []
  deriving DecidableEq

structure ResourceSpans where
  instrumentationLibrarySpans : List InstrumentationLibrarySpans := []
  deriving DecidableEq

structure ExportTraceServiceRequest where
  resourceSpans : List ResourceSpans := []
  deriving DecidableEq

def ExportTraceServiceRequest.spans (r : ExportTraceServiceRequest) : List Span :=
  r.resourceSpans.flatMap fun resource =>
    resource.instrumentationLibrarySpans.flatMap (·.spans)

end otlp

def spanAnnotationAwaitConsumption : String := "__await_consumption"
def spanAnnotationAttrStartTime : String := "__start_time"

def unixNano (n : ℤ) : ℕ := (n % 2 ^ 64).toNat

def toDouble (n : ℤ) : ℤ := n.sign * round 53 n.natAbs

/-- The value `int_value() * 1e6`, if it can be converted to an unsigned 64-bit number. -/
def startNanos (t : ℤ) : Option ℕ :=
  let nanos := toDouble (toDouble t * 10 ^ 6)
  if 0 ≤ nanos ∧ nanos < 2 ^ 64 then some nanos.toNat else none

theorem toDouble_natCast (n : ℕ) : toDouble n = round 53 n := by
  rw [toDouble, Int.natAbs_natCast]
  by_cases hzero : n = 0
  · rw [hzero]
    rfl
  · rw [Int.sign_natCast_of_ne_zero hzero, one_mul]

theorem toDouble_neg {n : ℤ} (h : n < 0) : toDouble n < 0 := by
  have hone : 2 ^ 0 ≤ round 53 n.natAbs := two_pow_le_round (by decide) (by omega)
  rw [toDouble, Int.sign_eq_neg_one_of_neg h]
  omega

def roundedNanos (t : ℕ) : ℕ := round 53 (round 53 t * 10 ^ 6)

theorem startNanos_natCast (t : ℕ) :
    startNanos t = if roundedNanos t < 2 ^ 64 then some (roundedNanos t) else none := by
  have hvalue : toDouble (toDouble t * 10 ^ 6) = roundedNanos t := by
    rw [toDouble_natCast, roundedNanos, ← toDouble_natCast (_ * _)]
    push_cast
    rfl
  rw [startNanos, hvalue]
  by_cases hlt : roundedNanos t < 2 ^ 64
  · rw [if_pos hlt, if_pos (by omega), Int.toNat_natCast]
  · rw [if_neg hlt, if_neg (by omega)]

theorem startNanos_of_neg {t : ℤ} (h : t < 0) : startNanos t = none := by
  have hneg : toDouble (toDouble t * 10 ^ 6) < 0 := by
    apply toDouble_neg
    have := toDouble_neg h
    omega
  rw [startNanos, if_neg (by omega)]

theorem round_of_lt {t : ℕ} (h : t < 2 ^ 53) : round 53 t = t :=
  (round_eq_self_iff (by decide)).mpr ⟨t, 0, h, by rw [pow_zero, mul_one]⟩

theorem roundedNanos_lt_iff (t : ℕ) : roundedNanos t < 2 ^ 64 ↔ t * 10 ^ 6 < 2 ^ 64 := by
  constructor
  · intro h
    by_contra hlarge
    apply absurd h (not_lt.mpr _)
    apply two_pow_le_round (by decide)
    by_cases hsmall : t < 2 ^ 53
    · rw [round_of_lt hsmall]
      exact not_lt.mp hlarge
    · have hround : 2 ^ 53 ≤ round 53 t := two_pow_le_round (by decide) (not_lt.mp hsmall)
      omega
  · intro h
    have hsmall : t < 2 ^ 53 := by omega
    have hbound := two_mul_round_le 53 (t * 10 ^ 6)
    have hunit : unit 53 (t * 10 ^ 6) ≤ 2 ^ 11 := by
      apply Nat.pow_le_pow_right (by decide)
      by_cases hzero : t * 10 ^ 6 = 0
      · rw [hzero]
        decide
      · have hlog : (t * 10 ^ 6).log2 < 64 := (Nat.log2_lt hzero).mpr h
        omega
    rw [roundedNanos, round_of_lt hsmall]
    generalize round 53 (t * 10 ^ 6) = r at hbound ⊢
    generalize unit 53 (t * 10 ^ 6) = u at hbound hunit
    omega

theorem roundedNanos_eq_iff (t : ℕ) :
    roundedNanos t = t * 10 ^ 6 ↔ Representable 53 (t * 10 ^ 6) := by
  constructor
  · intro h
    rw [← h]
    exact representable_round (by decide)
  · intro h
    have hfactor : Representable 53 t := h.of_mul (pow_ne_zero 6 (by decide))
    have ht : round 53 t = t := (round_eq_self_iff (by decide)).mpr hfactor
    rw [roundedNanos, ht]
    exact (round_eq_self_iff (by decide)).mpr h

theorem startNanos_isSome_iff (t : ℤ) :
    (startNanos t).isSome = true ↔ 0 ≤ t ∧ t * 10 ^ 6 < 2 ^ 64 := by
  rcases lt_or_ge t 0 with hneg | hpos
  · rw [startNanos_of_neg hneg]
    exact iff_of_false (by simp) (by omega)
  · obtain ⟨n, rfl⟩ := Int.eq_ofNat_of_zero_le hpos
    have hlt := roundedNanos_lt_iff n
    rw [startNanos_natCast]
    split_ifs with hfits
    · simp only [Option.isSome_some, true_iff]
      omega
    · simp only [Option.isSome_none, Bool.false_eq_true, false_iff]
      omega

theorem startNanos_exact_iff {t : ℤ} {n : ℕ} (h : startNanos t = some n) :
    (n : ℤ) = t * 10 ^ 6 ↔ Representable 53 (t * 10 ^ 6).toNat := by
  obtain ⟨hpos, -⟩ := (startNanos_isSome_iff t).mp (by rw [h]; rfl)
  obtain ⟨k, rfl⟩ := Int.eq_ofNat_of_zero_le hpos
  rw [startNanos_natCast] at h
  split_ifs at h
  cases h
  have hnat : ((k : ℤ) * 10 ^ 6).toNat = k * 10 ^ 6 := by omega
  rw [hnat, ← roundedNanos_eq_iff]
  omega

/-- The text up to a zero character, as a function that takes a `const char*` reads it. -/
def cString (s : String) : String := String.ofList (s.toList.takeWhile (· ≠ Char.ofNat 0))

namespace SpanExport
open otlp

def anyValue : AttributeValueRef → AnyValue
  | .string value => .stringValue value
  | .int value => .intValue value
  | .bool value => .boolValue value

def linkAttribute (attr : String × AttributeValueRef) : KeyValue :=
  { key := attr.1, value := some (anyValue attr.2) }

/-- The pair that is made for an attribute of an event or a span: the value is built, but it
is not attached. -/
def bareAttribute (attr : String × AttributeValueRef) : KeyValue :=
  let _value := anyValue attr.2
  { key := attr.1 }

def bareEvent (entry : AnnotationEntry) : Event :=
  { timeUnixNano := unixNano entry.timestamp
    attributes := entry.attributes.map bareAttribute }

def convertLink (link : SpanLink) : Link :=
  { traceId := link.traceId, spanId := link.spanId
    attributes := link.attributes.map linkAttribute }

def isMarker (entry : AnnotationEntry) : Bool :=
  entry.description = spanAnnotationAwaitConsumption

def setStart (item : Span) (attr : String × AttributeValueRef) : Option Span :=
  if attr.1 = spanAnnotationAttrStartTime then
    match attr.2 with
    | .int t => (startNanos t).map fun nanos => { item with startTimeUnixNano := nanos }
    | _ => none
  else some item

def convertEntry (item : Span) (entry : AnnotationEntry) : Option Span :=
  if isMarker entry then entry.attributes.foldlM setStart item
  else some { item with events := item.events ++ [bareEvent entry] }

def convertMessageEvents (item : Span) (span : SpanData) : Span :=
  if !span.messageEvents.isEmpty then
    let _events : List Event :=
      span.messageEvents.map fun event => { timeUnixNano := unixNano event.timestamp }
    { item with droppedEventsCount := span.droppedMessageEvents }
  else item

def convertAnnotations (item : Span) (span : SpanData) : Option Span :=
  if !span.annotations.isEmpty then
    (span.annotations.foldlM convertEntry item).map fun item =>
      { item with droppedEventsCount := span.droppedAnnotations }
  else some item

def convertSpan (span : SpanData) : Option Span :=
  let item : Span :=
    { traceId := span.traceId, spanId := span.spanId, parentSpanId := span.parentSpanId
      name := cString span.name
      startTimeUnixNano := unixNano span.startTime, endTimeUnixNano := unixNano span.endTime
      kind := .client }
  (convertAnnotations (convertMessageEvents item span) span).map fun item =>
    { item with
      links := span.links.map convertLink
      droppedLinksCount := span.numAttributesDropped
      attributes := span.attributes.map bareAttribute
      status := if span.statusOk then { code := .ok }
        else { code := .error, message := span.errorMessage } }

def buildRequest (spans : List SpanData) : Option ExportTraceServiceRequest :=
  (spans.mapM convertSpan).map fun items =>
    { resourceSpans := [{ instrumentationLibrarySpans := [{ spans := items }] }] }

def attributeStarts (attr : String × AttributeValueRef) : List AttributeValueRef :=
  if attr.1 = spanAnnotationAttrStartTime then [attr.2] else []

def entryStarts (entry : AnnotationEntry) : List AttributeValueRef :=
  if isMarker entry then entry.attributes.flatMap attributeStarts else []

def startValues (annotations : List AnnotationEntry) : List AttributeValueRef :=
  annotations.flatMap entryStarts

def eventsOf (toEvent : AnnotationEntry → Event) (entry : AnnotationEntry) : List Event :=
  if isMarker entry then [] else [toEvent entry]

def startOf : AttributeValueRef → Option ℕ
  | .int t => startNanos t
  | _ => none

def lastStart (start : ℕ) (values : List AttributeValueRef) : Option ℕ :=
  values.foldlM (fun _ value => startOf value) start

theorem lastStart_nil (start : ℕ) : lastStart start [] = some start := rfl

theorem lastStart_cons (start : ℕ) (value : AttributeValueRef) (values : List AttributeValueRef) :
    lastStart start (value :: values) =
      (startOf value).bind fun start => lastStart start values := by
  rw [lastStart, List.foldlM_cons]
  rfl

theorem lastStart_append (start : ℕ) (values values' : List AttributeValueRef) :
    lastStart start (values ++ values') =
      (lastStart start values).bind fun start => lastStart start values' := by
  rw [lastStart, List.foldlM_append]
  rfl

def advance (item : Span) (events : List Event) (start : ℕ) : Span :=
  { item with startTimeUnixNano := start, events := item.events ++ events }

theorem advance_nil (item : Span) : advance item [] item.startTimeUnixNano = item := by
  simp [advance]

theorem advance_advance (item : Span) (events events' : List Event) (start : ℕ) :
    advance (advance item events start) events' = advance item (events ++ events') := by
  funext start'
  simp [advance]

theorem foldlM_advance {α : Type} {f : Span → α → Option Span} {starts : α → List AttributeValueRef}
    {events : α → List Event}
    (hf : ∀ item a, f item a =
      (lastStart item.startTimeUnixNano (starts a)).map (advance item (events a)))
    (item : Span) (l : List α) :
    l.foldlM f item =
      (lastStart item.startTimeUnixNano (l.flatMap starts)).map
        (advance item (l.flatMap events)) := by
  induction l generalizing item with
  | nil =>
    rw [List.foldlM_nil, List.flatMap_nil, List.flatMap_nil, lastStart_nil, Option.map_some,
      advance_nil]
    rfl
  | cons a l ih =>
    rw [List.foldlM_cons, hf, List.flatMap_cons, List.flatMap_cons, lastStart_append]
    cases lastStart item.startTimeUnixNano (starts a) with
    | none => rfl
    | some start =>
      rw [Option.map_some, Option.bind_eq_bind, Option.bind_some, Option.bind_some, ih,
        advance_advance]
      rfl

theorem setStart_eq (item : Span) (attr : String × AttributeValueRef) :
    setStart item attr =
      (lastStart item.startTimeUnixNano (attributeStarts attr)).map (advance item []) := by
  obtain ⟨key, value⟩ := attr
  by_cases hkey : key = spanAnnotationAttrStartTime
  · cases value with
    | string v => simp [setStart, attributeStarts, hkey, lastStart_cons, startOf]
    | int t =>
      simp only [setStart, attributeStarts, hkey, if_true, lastStart_cons, startOf, lastStart_nil]
      cases startNanos t <;> simp [advance]
    | bool v => simp [setStart, attributeStarts, hkey, lastStart_cons, startOf]
  · simp [setStart, attributeStarts, hkey, lastStart_nil, advance_nil]

theorem convertEntry_eq (item : Span) (entry : AnnotationEntry) :
    convertEntry item entry =
      (lastStart item.startTimeUnixNano (entryStarts entry)).map
        (advance item (eventsOf bareEvent entry)) := by
  by_cases hmarker : isMarker entry = true
  · have hnone : entry.attributes.flatMap (fun _ => ([] : List Event)) = [] :=
      List.flatMap_eq_nil_iff.mpr fun _ _ => rfl
    simp only [convertEntry, entryStarts, eventsOf, hmarker, if_true]
    rw [foldlM_advance setStart_eq, hnone]
  · simp [convertEntry, entryStarts, eventsOf, hmarker, lastStart_nil, advance]

theorem convertAnnotations_eq (item : Span) (span : SpanData) :
    convertAnnotations item span =
      (lastStart item.startTimeUnixNano (startValues span.annotations)).map fun start =>
        { advance item (span.annotations.flatMap (eventsOf bareEvent)) start with
          droppedEventsCount :=
            if span.annotations = [] then item.droppedEventsCount
            else span.droppedAnnotations } := by
  rw [convertAnnotations]
  by_cases hempty : span.annotations = []
  · simp [hempty, startValues, lastStart_nil, advance]
  · rw [if_pos (by simpa using hempty), foldlM_advance convertEntry_eq, Option.map_map]
    simp only [hempty, if_false]
    rfl

def spanWith (span : SpanData) (start : ℕ) : Span :=
  { traceId := span.traceId, spanId := span.spanId, parentSpanId := span.parentSpanId
    name := cString span.name
    startTimeUnixNano := start, endTimeUnixNano := unixNano span.endTime
    kind := .client
    events := span.annotations.flatMap (eventsOf bareEvent)
    droppedEventsCount :=
      if span.annotations = [] then
        if span.messageEvents = [] then 0 else span.droppedMessageEvents
      else span.droppedAnnotations
    links := span.links.map convertLink
    droppedLinksCount := span.numAttributesDropped
    attributes := span.attributes.map bareAttribute
    status := if span.statusOk then { code := .ok }
      else { code := .error, message := span.errorMessage } }

theorem convertSpan_eq (span : SpanData) :
    convertSpan span =
      (lastStart (unixNano span.startTime) (startValues span.annotations)).map
        (spanWith span) := by
  rw [convertSpan, convertAnnotations_eq, Option.map_map]
  by_cases hempty : span.messageEvents = []
  · simp only [convertMessageEvents, hempty, List.isEmpty_nil, Bool.not_true]
    congr 1
    funext start
    simp [spanWith, advance, hempty]
  · have hne : (!span.messageEvents.isEmpty) = true := by simpa using hempty
    simp only [convertMessageEvents, hne, if_true]
    congr 1
    funext start
    simp [spanWith, advance, hempty]

theorem lastStart_isSome_iff {start : ℕ} {values : List AttributeValueRef} :
    (lastStart start values).isSome = true ↔ ∀ v ∈ values, (startOf v).isSome = true := by
  induction values generalizing start with
  | nil => simp [lastStart_nil]
  | cons v values ih =>
    rw [lastStart_cons, List.forall_mem_cons]
    cases startOf v with
    | none => simp
    | some start' => simp [ih]

theorem lastStart_of_getLast {start last : ℕ} {values : List AttributeValueRef}
    {v : AttributeValueRef} (h : lastStart start values = some last)
    (hlast : values.getLast? = some v) : startOf v = some last := by
  obtain ⟨before, rfl⟩ := List.getLast?_eq_some_iff.mp hlast
  rw [lastStart_append] at h
  obtain ⟨start', -, hv⟩ := Option.bind_eq_some_iff.mp h
  rw [lastStart_cons] at hv
  obtain ⟨last', hv', hnil⟩ := Option.bind_eq_some_iff.mp hv
  rw [lastStart_nil, Option.some.injEq] at hnil
  rw [hv', hnil]

def faithfulEvent (entry : AnnotationEntry) : Event :=
  { timeUnixNano := unixNano entry.timestamp
    attributes := entry.attributes.map linkAttribute }

def messageEvent (event : MessageEvent) : Event := { timeUnixNano := unixNano event.timestamp }

/-- The item has the attributes of the span, of its events and of its links, an event for each
message event and each annotation that is no marker, and the start that the last marker says. -/
structure Preserves (span : SpanData) (item : Span) : Prop where
  traceId : item.traceId = span.traceId
  spanId : item.spanId = span.spanId
  attributes : item.attributes = span.attributes.map linkAttribute
  events : item.events.Perm
    (span.messageEvents.map messageEvent ++ span.annotations.flatMap (eventsOf faithfulEvent))
  links : item.links.map (·.attributes) =
    span.links.map fun link => link.attributes.map linkAttribute
  start : ∀ t, (startValues span.annotations).getLast? = some (.int t) →
    (item.startTimeUnixNano : ℤ) = t * 10 ^ 6

/-- The span has no message event, and no attribute but those of links and markers; each start
time is a number that fits, and the last one is exact in double precision. -/
structure Convertible (span : SpanData) : Prop where
  attributes : span.attributes = []
  messageEvents : span.messageEvents = []
  annotations : ∀ entry ∈ span.annotations, isMarker entry = false →
    entry.attributes = []
  starts : ∀ v ∈ startValues span.annotations, ∃ t, v = .int t ∧ 0 ≤ t ∧ t * 10 ^ 6 < 2 ^ 64
  last : ∀ t, (startValues span.annotations).getLast? = some (.int t) →
    Representable 53 (t * 10 ^ 6).toNat

theorem map_bareAttribute_eq_iff {attrs attrs' : Attributes} :
    attrs.map bareAttribute = attrs'.map linkAttribute ↔ attrs = [] ∧ attrs' = [] := by
  constructor
  · intro h
    cases attrs with
    | nil => exact ⟨rfl, List.map_eq_nil_iff.mp h.symm⟩
    | cons attr attrs =>
      cases attrs' with
      | nil => cases h
      | cons attr' attrs' =>
        rw [List.map_cons, List.map_cons, List.cons.injEq] at h
        cases congrArg KeyValue.value h.1
  · rintro ⟨rfl, rfl⟩
    rfl

theorem flatMap_eventsOf (toEvent : AnnotationEntry → Event) (annotations : List AnnotationEntry) :
    annotations.flatMap (eventsOf toEvent) =
      (annotations.filter fun entry => !isMarker entry).map toEvent := by
  induction annotations with
  | nil => rfl
  | cons entry annotations ih =>
    rw [List.flatMap_cons, ih, eventsOf]
    by_cases hmarker : isMarker entry = true
    · simp [hmarker]
    · simp [hmarker]

theorem events_perm_iff (span : SpanData) :
    (span.annotations.flatMap (eventsOf bareEvent)).Perm
        (span.messageEvents.map messageEvent ++
          span.annotations.flatMap (eventsOf faithfulEvent)) ↔
      span.messageEvents = [] ∧ ∀ entry ∈ span.annotations, isMarker entry = false →
        entry.attributes = [] := by
  rw [flatMap_eventsOf, flatMap_eventsOf]
  constructor
  · intro h
    have hlength := h.length_eq
    simp only [List.length_append, List.length_map] at hlength
    have hnone : span.messageEvents = [] := List.length_eq_zero_iff.mp (by omega)
    refine ⟨hnone, fun entry hmem hmarker => ?_⟩
    rw [hnone, List.map_nil, List.nil_append] at h
    have hevent : bareEvent entry ∈
        (span.annotations.filter fun entry => !isMarker entry).map bareEvent :=
      List.mem_map_of_mem (List.mem_filter.mpr ⟨hmem, by simp [hmarker]⟩)
    obtain ⟨entry', -, heq⟩ := List.mem_map.mp (h.mem_iff.mp hevent)
    exact (map_bareAttribute_eq_iff.mp (congrArg Event.attributes heq).symm).1
  · rintro ⟨hnone, hall⟩
    rw [hnone, List.map_nil, List.nil_append]
    apply List.Perm.of_eq
    apply List.map_congr_left
    intro entry hmem
    obtain ⟨hmem, hmarker⟩ := List.mem_filter.mp hmem
    have hempty := hall entry hmem (by simpa using hmarker)
    simp [bareEvent, faithfulEvent, hempty]

theorem startOf_isSome_iff (v : AttributeValueRef) :
    (startOf v).isSome = true ↔ ∃ t, v = .int t ∧ 0 ≤ t ∧ t * 10 ^ 6 < 2 ^ 64 := by
  cases v with
  | string s => simp [startOf]
  | int t => simp [startOf, startNanos_isSome_iff]
  | bool b => simp [startOf]

theorem convertSpan_preserves_iff (span : SpanData) :
    (∃ item, convertSpan span = some item ∧ Preserves span item) ↔ Convertible span := by
  rw [convertSpan_eq]
  constructor
  · rintro ⟨item, hitem, h⟩
    obtain ⟨start, hstart, rfl⟩ := Option.map_eq_some_iff.mp hitem
    obtain ⟨hmessages, hannotations⟩ := (events_perm_iff span).mp h.events
    refine ⟨(map_bareAttribute_eq_iff.mp h.attributes).1, hmessages, hannotations, ?_, ?_⟩
    · intro v hv
      exact (startOf_isSome_iff v).mp (lastStart_isSome_iff.mp (by rw [hstart]; rfl) v hv)
    · intro t ht
      exact (startNanos_exact_iff (lastStart_of_getLast hstart ht)).mp (h.start t ht)
  · intro h
    have hsome : (lastStart (unixNano span.startTime) (startValues span.annotations)).isSome :=
      lastStart_isSome_iff.mpr fun v hv => (startOf_isSome_iff v).mpr (h.starts v hv)
    obtain ⟨start, hstart⟩ := Option.isSome_iff_exists.mp hsome
    refine ⟨spanWith span start, by rw [hstart]; rfl, rfl, rfl, ?_, ?_, ?_, ?_⟩
    · exact map_bareAttribute_eq_iff.mpr ⟨h.attributes, h.attributes⟩
    · exact (events_perm_iff span).mpr ⟨h.messageEvents, h.annotations⟩
    · simp [spanWith, convertLink, Function.comp_def]
    · intro t ht
      exact (startNanos_exact_iff (lastStart_of_getLast hstart ht)).mpr (h.last t ht)

theorem exists_mapM_iff {α β : Type} {f : α → Option β} {R : α → β → Prop} {l : List α} :
    (∃ items, l.mapM f = some items ∧ List.Forall₂ R l items) ↔
      ∀ a ∈ l, ∃ b, f a = some b ∧ R a b := by
  induction l with
  | nil => simp
  | cons a l ih =>
    rw [List.forall_mem_cons, ← ih]
    constructor
    · rintro ⟨items, hmap, hall⟩
      rw [List.mapM_cons] at hmap
      obtain ⟨b, hb, hrest⟩ := Option.bind_eq_some_iff.mp hmap
      obtain ⟨bs, hbs, hcons⟩ := Option.bind_eq_some_iff.mp hrest
      cases hcons
      obtain ⟨hhead, htail⟩ := List.forall₂_cons.mp hall
      exact ⟨⟨b, hb, hhead⟩, bs, hbs, htail⟩
    · rintro ⟨⟨b, hb, hhead⟩, bs, hbs, htail⟩
      exact ⟨b :: bs, by simp [List.mapM_cons, hb, hbs], List.Forall₂.cons hhead htail⟩

theorem buildRequest_preserves_iff (spans : List SpanData) :
    (∃ request, buildRequest spans = some request ∧
        List.Forall₂ Preserves spans request.spans) ↔
      ∀ span ∈ spans, Convertible span := by
  have hspans : ∀ items : List Span, (ExportTraceServiceRequest.spans
      { resourceSpans := [{ instrumentationLibrarySpans := [{ spans := items }] }] }) = items := by
    intro items
    simp [ExportTraceServiceRequest.spans]
  simp only [← convertSpan_preserves_iff, ← exists_mapM_iff, buildRequest,
    Option.map_eq_some_iff]
  constructor
  · rintro ⟨request, ⟨items, hitems, rfl⟩, hall⟩
    rw [hspans] at hall
    exact ⟨items, hitems, hall⟩
  · rintro ⟨items, hitems, hall⟩
    exact ⟨_, ⟨items, hitems, rfl⟩, (hspans items).symm ▸ hall⟩

end SpanExport

inductive TraceMode
  | off
  | debug
  | grpc

/-- What `Export` does; `undefined` stands for a failed assertion or undefined behaviour. -/
inductive Exported (Client : Type)
  | nothing
  | sent (client : Client) (request : otlp.ExportTraceServiceRequest)
  | undefined

def exportSpans {Client : Type} (exporter : Option (Exporter Client)) (mode : TraceMode)
    (clients : ClientsMap Client) (roundRobin : UInt32) (spans : List SpanData) :
    Exported Client :=
  match exporter, mode with
  | none, _ => .nothing
  | some _, .off => .nothing
  -- the spans are only logged
  | some _, .debug => .nothing
  | some exporter, .grpc =>
    match clients.syncExportClients (some exporter) with
    | none => .undefined
    | some clients =>
      match clients.choose roundRobin with
      | none => .nothing
      | some client =>
        match SpanExport.buildRequest spans with
        | none => .undefined
        | some request => .sent client request

theorem exportSpans_sent_iff {Client : Type} {exporter : Exporter Client}
    {clients clients' : ClientsMap Client} {roundRobin : UInt32} {client : Client}
    (hsync : clients.syncExportClients (some exporter) = some clients')
    (hclient : clients'.choose roundRobin = some client) (spans : List SpanData)
    (request : otlp.ExportTraceServiceRequest) :
    exportSpans (some exporter) .grpc clients roundRobin spans = .sent client request ↔
      SpanExport.buildRequest spans = some request := by
  rw [exportSpans]
  simp only [hsync, hclient]
  cases SpanExport.buildRequest spans with
  | none => simp
  | some r => simp

/-- In the mode `grpc`, once there is a client, the request sent holds one span for each given,
in order, each with all that `Preserves` says, exactly if every span is convertible. -/
theorem export_preserves_spans_iff {Client : Type} {exporter : Exporter Client}
    {clients clients' : ClientsMap Client} {roundRobin : UInt32} {client : Client}
    (hsync : clients.syncExportClients (some exporter) = some clients')
    (hclient : clients'.choose roundRobin = some client) (spans : List SpanData) :
    (∃ request, exportSpans (some exporter) .grpc clients roundRobin spans = .sent client request ∧
        List.Forall₂ SpanExport.Preserves spans request.spans) ↔
      ∀ span ∈ spans, SpanExport.Convertible span := by
  simp only [exportSpans_sent_iff hsync hclient]
  exact SpanExport.buildRequest_preserves_iff spans

theorem sync_none_one :
    (⟨[], List.nodup_nil⟩ : ClientsMap ℕ).syncExportClients (some ⟨["a"], some fun _ => 0⟩) =
      some ⟨[("a", 0)], by decide⟩ := rfl

def waitingSpan : SpanData :=
  { links := [{ traceId := "t", spanId := "s", attributes := [("k", .int 1)] }]
    annotations := [
      { description := spanAnnotationAwaitConsumption
        attributes := [(spanAnnotationAttrStartTime, .int 1024)] }] }

theorem waitingSpan_preserved :
    ∃ request, exportSpans (some ⟨["a"], some fun _ => 0⟩) .grpc ⟨[], List.nodup_nil⟩ 0
        [waitingSpan] = .sent 0 request ∧
      List.Forall₂ SpanExport.Preserves [waitingSpan] request.spans := by
  refine (export_preserves_spans_iff sync_none_one rfl _).mpr ?_
  intro span hspan
  have hstarts : SpanExport.startValues waitingSpan.annotations = [.int 1024] := by decide
  rw [List.mem_singleton.mp hspan]
  refine ⟨rfl, rfl, ?_, ?_, ?_⟩
  · intro entry hmem hmarker
    rw [List.mem_singleton.mp hmem] at hmarker
    exact absurd hmarker (by decide)
  · intro v hv
    rw [hstarts, List.mem_singleton] at hv
    exact ⟨1024, hv, by decide, by decide⟩
  · intro t ht
    rw [hstarts] at ht
    cases ht
    exact ⟨1024000000, 0, by decide, rfl⟩

def fullSpan : SpanData :=
  { attributes := [("k", .int 1)]
    messageEvents := [⟨5⟩]
    annotations := [
      { description := spanAnnotationAwaitConsumption
        attributes := [(spanAnnotationAttrStartTime, .int 1600000000001)] },
      { timestamp := 7, description := "a", attributes := [("b", .bool true)] }] }

theorem fullSpan_not_preserved :
    (SpanExport.convertSpan fullSpan).map (fun item => (item.attributes, item.events)) =
        some ([{ key := "k" }], [{ timeUnixNano := 7, attributes := [{ key := "b" }] }]) ∧
      (SpanExport.convertSpan fullSpan).map (·.startTimeUnixNano) = some 1600000000000999936 ∧
      ¬ ∃ request, exportSpans (some ⟨["a"], some fun _ => 0⟩) .grpc ⟨[], List.nodup_nil⟩ 0
          [fullSpan] = .sent 0 request ∧
        List.Forall₂ SpanExport.Preserves [fullSpan] request.spans := by
  refine ⟨by decide +kernel, by decide +kernel, ?_⟩
  rintro ⟨request, hsent, hall⟩
  have hbuilt := (exportSpans_sent_iff sync_none_one rfl _ _).mp hsent
  have hconvertible := (SpanExport.buildRequest_preserves_iff [fullSpan]).mp
    ⟨request, hbuilt, hall⟩ fullSpan (List.mem_singleton.mpr rfl)
  cases hconvertible.attributes

end RocketMQClient
