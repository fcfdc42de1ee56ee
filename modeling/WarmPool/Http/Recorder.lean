import WarmPool.Event
import WarmPool.Http.ApiClient

/-!
# Recording events

Events become objects of the events API. An event that was published before, with the same reason,
action and severity and about the same object, is not published again: the first one gets a series
that counts. An event whose request fails is forgotten, since events never stand in the way.
-/

namespace WarmPool.Http

/-- Who publishes events. -/
structure Reporter where
  controller : String
  /-- The process, the controller itself if it is not known. -/
  process : Option String := none
deriving DecidableEq, Repr

/-- An event as it was published. -/
structure PublishedEvent where
  event : Event
  about : ObjectReference
  name : String
  time : Timestamp
  /-- How often it happened. -/
  count : Nat
deriving DecidableEq, Repr

/-- What a publisher of events remembers. -/
structure Recorder where
  reporter : Reporter
  published : List PublishedEvent := []
deriving DecidableEq, Repr

namespace PublishedEvent

/-- Whether an event about an object counts as this one once more. -/
def isSame (p : PublishedEvent) (e : Event) (about : ObjectReference) : Bool :=
  p.event.severity = e.severity && p.event.reason = e.reason && p.event.action = e.action &&
    p.about = about

end PublishedEvent

namespace Recorder

/-- The API version of events. -/
def eventsVersion : String := "events.k8s.io/v1"

/-- The namespace of an event: that of its object. -/
def scope (about : ObjectReference) : String := about.namespaceName.getD "default"

/-- The name of an event: that of its object, or else of the controller, and the instant. -/
def eventName (reporter : Reporter) (about : ObjectReference) (now : Timestamp) : String :=
  about.name.getD reporter.controller ++ "." ++
    String.ofList (Text.hexDigits 20 now.totalNanos [])

/-- The reference to an object as JSON. -/
def encodeReference (r : ObjectReference) : Json :=
  .object <|
    [Json.stringField "apiVersion" r.apiVersion, Json.stringField "kind" r.kind] ++
    Json.optionalField "name" Json.string r.name ++
    Json.optionalField "namespace" Json.string r.namespaceName ++
    Json.optionalField "uid" Json.string r.uid

/-- An event as an object of the API; one that happened more than once has a series. -/
def encode (reporter : Reporter) (p : PublishedEvent) (now : Timestamp) : Json :=
  .object <|
    [Json.stringField "apiVersion" eventsVersion, Json.stringField "kind" "Event",
      Json.stringField "action" p.event.action, Json.stringField "eventTime" p.time.microText,
      ("metadata",
        Metadata.encode { name := some p.name, namespaceName := p.about.namespaceName })] ++
    Json.optionalField "note" Json.string p.event.note ++
    [Json.stringField "reason" p.event.reason, ("regarding", encodeReference p.about),
      Json.stringField "reportingController" reporter.controller,
      Json.stringField "reportingInstance" (reporter.process.getD reporter.controller)] ++
    (if p.count ≤ 1 then []
      else
        [("series", .object
          [("count", Json.ofNat p.count), Json.stringField "lastObservedTime" now.microText])]) ++
    [Json.stringField "type" p.event.severity.name]

/-- The shape of a reference in an event. -/
def referenceShape : Shape :=
  .lenient <| Shape.optionals
    [("apiVersion", .text), ("fieldPath", .text), ("kind", .text), ("name", .text),
      ("namespace", .text), ("resourceVersion", .text), ("uid", .text)]

/-- The fields of an event. -/
def eventFields : List (String × Shape) :=
  [("action", .text), ("deprecatedCount", .int32), ("deprecatedFirstTimestamp", .instant),
    ("deprecatedLastTimestamp", .instant),
    ("deprecatedSource",
      .lenient <| Shape.optionals [("component", .text), ("host", .text)]),
    ("eventTime", .instant), ("note", .text), ("reason", .text), ("regarding", referenceShape),
    ("related", referenceShape), ("reportingController", .text), ("reportingInstance", .text),
    ("series",
      .lenient <| Shape.optionals [("count", .int32), ("lastObservedTime", .instant)]),
    ("type", .text)]

/-- Whether a series, if there is one, says when it was last observed. -/
def decodeEvent? (v : Json) : Option Unit :=
  match v.get? "series" with
  | none | some .null => some ()
  | some series =>
    match series.get? "lastObservedTime" with
    | none | some .null => none
    | some _ => some ()

/-- An event in a body, of which nothing is kept. -/
def eventBody : Body Unit := ⟨.kindOf eventsVersion "Event" eventFields, decodeEvent?⟩

/-- The path of the events of a namespace. -/
def events (namespaceName : String) : String :=
  "/apis/" ++ eventsVersion ++ "/namespaces/" ++ namespaceName ++ "/events"

/-- Remembers an event that was published. -/
def remember (r : Recorder) (p : PublishedEvent) : Recorder :=
  { r with published := p :: r.published.filter fun q => !q.isSame p.event p.about }

/-- Publishes an event about an object; a failure is of no consequence but that it is forgotten. -/
def publish (r : Recorder) (now : Timestamp) (about : ObjectReference) (e : Event) :
    Exchange Recorder := do
  let path := events (scope about)
  let (p, result) ←
    match r.published.find? fun q => q.isSame e about with
    | some first =>
      let p := { first with count := first.count + 1 }
      let body := encode r.reporter p now
      pure (p, ← ApiClient.patch eventBody path p.name "" none body)
    | none =>
      let p : PublishedEvent := ⟨e, about, eventName r.reporter about now, now, 1⟩
      pure (p, ← ApiClient.create eventBody path (encode r.reporter p now))
  match result with
  | .ok () => pure (r.remember p)
  | .error _ => pure r

end Recorder

end WarmPool.Http
