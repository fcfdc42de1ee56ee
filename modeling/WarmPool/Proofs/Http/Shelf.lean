import WarmPool.Proofs.Http.Reading

/-!
# One object on an API server

The server keeps an object under a path, with a version in its metadata. It answers requests as
documented (`Server.serve`): a merge patch that carries a version is refused if the object has
another, a patched object gets a version that was never given out, and one whose deletion was asked
for goes with its last finalizer. `Server.carry` lets an exchange and other parties take turns.
-/

namespace WarmPool

open Json

/-! ### Merging into an object -/

namespace Json

theorem nodup_removeField {key : String} {fields : List (String × Json)}
    (h : (fields.map Prod.fst).Nodup) : ((removeField key fields).map Prod.fst).Nodup :=
  h.sublist (List.filter_sublist.map Prod.fst)

mutual

/-- A merge gives no key twice. -/
theorem wellFormed_merge {target : Json} (patch : Json) (htarget : target.WellFormed)
    (hpatch : patch.WellFormed) : (target.merge patch).WellFormed := by
  match patch with
  | .object fields =>
    have hfields : (target.fieldsOf.map Prod.fst).Nodup ∧ WellFormedFields target.fieldsOf := by
      cases target with
      | object fields => exact htarget
      | _ => exact ⟨List.nodup_nil, trivial⟩
    exact wellFormed_mergeFields fields hfields.1 hfields.2 hpatch.2
  | .null | .bool _ | .number _ | .string _ => trivial
  | .array items => exact hpatch

theorem wellFormed_mergeFields {target : List (String × Json)} (patch : List (String × Json))
    (hnodup : (target.map Prod.fst).Nodup) (htarget : WellFormedFields target)
    (hpatch : WellFormedFields patch) :
    ((mergeFields target patch).map Prod.fst).Nodup ∧
      WellFormedFields (mergeFields target patch) := by
  match patch with
  | [] => exact ⟨hnodup, htarget⟩
  | (key, v) :: rest =>
    rw [WellFormedFields] at hpatch
    have hbefore : ((lookup? key target).getD .null).WellFormed := by
      cases hv : lookup? key target with
      | none => trivial
      | some v => exact wellFormedFields_iff.1 htarget _ (mem_of_lookup? hv)
    have hmerged := wellFormed_merge v hbefore hpatch.1
    match v with
    | .null =>
      refine wellFormed_mergeFields rest (nodup_removeField hnodup) ?_ hpatch.2
      rw [wellFormedFields_iff] at htarget ⊢
      exact fun f hf => htarget f (List.mem_filter.1 hf).1
    | .object _ | .bool _ | .number _ | .string _ | .array _ =>
      exact wellFormed_mergeFields rest (nodup_setField hnodup)
        (wellFormedFields_setField hmerged htarget) hpatch.2

end

variable {v : Json} {p : List (String × Json)}

/-- A patch of the metadata changes the named fields of it and nothing else. -/
theorem merge_metadata (hv : v.IsObject) (hnodup : (p.map Prod.fst).Nodup)
    (hp : WellFormedFields p) :
    (v.merge (.object [("metadata", .object p)])).IsObject ∧
      (∀ key, key ≠ "metadata" →
        (v.merge (.object [("metadata", .object p)])).get? key = v.get? key) ∧
      ∀ key, (v.merge (.object [("metadata", .object p)])).metadataField? key =
        match lookup? key p with
        | none => v.metadataField? key
        | some x => patched (v.metadataField? key) x := by
  obtain ⟨fields, mfields, rfl, hmetadata⟩ := hv.parts
  have hpatch : ([("metadata", Json.object p)].map Prod.fst).Nodup := List.nodup_singleton _
  have hlookup (key : String) := lookup?_mergeFields key hpatch fields
  have hmerged : lookup? "metadata" (mergeFields fields [("metadata", .object p)]) =
      some (.object (mergeFields mfields p)) := by
    rw [hlookup, hmetadata]
    rfl
  refine ⟨⟨?_, _, _, rfl, hmerged⟩, fun key hkey => ?_, fun key => ?_⟩
  · exact wellFormed_merge _ hv.wellFormed ⟨List.nodup_singleton _, ⟨hnodup, hp⟩, trivial⟩
  · show lookup? key (mergeFields fields _) = lookup? key fields
    rw [hlookup, lookup?_cons, if_neg (Ne.symm hkey)]
    rfl
  · have hbefore : (Json.object fields).metadataField? key = lookup? key mfields := by
      show (lookup? "metadata" fields).bind (get? key) = _
      rw [hmetadata]
      rfl
    have hafter : ((Json.object fields).merge (.object [("metadata", .object p)])).metadataField?
        key = lookup? key (mergeFields mfields p) := by
      show (lookup? "metadata" (mergeFields fields _)).bind (get? key) = _
      rw [hmerged]
      rfl
    rw [hbefore, hafter]
    exact lookup?_mergeFields key hnodup mfields

/-- The object with another version. -/
def withVersion (version : String) (v : Json) : Json :=
  v.merge (.object [("metadata", .object [("resourceVersion", .string version)])])

theorem withVersion_spec (hv : v.IsObject) (version : String) :
    (v.withVersion version).IsObject ∧
      (∀ key, key ≠ "metadata" → (v.withVersion version).get? key = v.get? key) ∧
      (∀ key, key ≠ "resourceVersion" →
        (v.withVersion version).metadataField? key = v.metadataField? key) ∧
      (v.withVersion version).version? = some version := by
  obtain ⟨hobject, hrest, hmetadata⟩ := merge_metadata hv
    (p := [("resourceVersion", .string version)]) (List.nodup_singleton _) ⟨trivial, trivial⟩
  refine ⟨hobject, hrest, fun key hkey => ?_, ?_⟩
  · refine (hmetadata key).trans ?_
    rw [lookup?_cons, if_neg (Ne.symm hkey)]
    rfl
  · show ((v.merge _).metadataField? "resourceVersion").bind toString? = _
    rw [hmetadata]
    rfl

/-- Whether a deletion was asked for that waits for nothing any more. -/
def isReleased (v : Json) : Bool :=
  (match v.metadataField? "deletionTimestamp" with
    | none | some .null => false
    | some _ => true) && v.finalizers.isEmpty

end Json

namespace Http

/-- What may differ between servers that keep to the documentation. -/
structure Server where
  /-- The text in which a value is sent. -/
  render : Json → String
  /-- The version for an object that is written, where these were given out before. -/
  fresh : List String → String
  /-- The message that comes with a failure of this code. -/
  message : Nat → String
  parse?_render : ∀ v, Literal.parse? (render v) = some (.ofJson v)
  fresh_not_mem : ∀ used, fresh used ∉ used

/-- A text that ends in those of a list and a digit is longer than each of them. -/
theorem length_lt_foldr_append {version : String} {used : List String} (h : version ∈ used) :
    version.length < (used.foldr (· ++ ·) "1").length := by
  have hpos (l : List String) : 0 < (l.foldr (· ++ ·) "1").length := by
    induction l with
    | nil => decide
    | cons u l ih =>
      rw [List.foldr_cons, String.length_append]
      omega
  induction used with
  | nil => cases h
  | cons u used ih =>
    rw [List.foldr_cons, String.length_append]
    rcases List.mem_cons.1 h with rfl | h
    · exact Nat.lt_add_of_pos_right (hpos used)
    · exact (ih h).trans_le (Nat.le_add_left _ _)

/-- A server that sends compact text, gives ever longer versions and explains nothing. -/
def Server.plain : Server where
  render := Json.compact
  fresh used := used.foldr (· ++ ·) "1"
  message _ := ""
  parse?_render := Literal.parse?_compact
  fresh_not_mem _ h := absurd (length_lt_foldr_append h) (Nat.lt_irrefl _)

/-- What is under a path, and the versions that were given out there. -/
structure Shelf where
  object : Option Json
  used : List String

/-- What is stored is an object with a version that was given out. -/
def Shelf.Sound (s : Shelf) : Prop :=
  ∀ v, s.object = some v → v.IsObject ∧ ∃ version ∈ s.used, v.version? = some version

/-- What another party does. -/
inductive Act where
  /-- An object is made or replaced. -/
  | write (v : Json) (h : v.IsObject)
  | remove

def Act.isWrite : Act → Bool
  | write _ _ => true
  | remove => false

namespace Server

variable (server : Server)

/-- A failure as the server describes it. -/
def failure (code : Nat) (reason : String) : Response where
  status := code
  text := server.render <| .object
    [stringField "kind" "Status", stringField "apiVersion" "v1", ("metadata", .object []),
      stringField "status" "Failure", stringField "message" (server.message code),
      stringField "reason" reason, ("code", .ofNat code)]

/-- Stores an object under a version that was never given out. -/
def store (s : Shelf) (v : Json) : Shelf where
  object := some (v.withVersion (server.fresh s.used))
  used := server.fresh s.used :: s.used

/-- Lays a patch over an object, unless the patch carries another version than the object has. -/
def patch (s : Shelf) (v change : Json) : Response × Shelf :=
  if change.version?.isSome ∧ change.version? ≠ v.version? then
    (server.failure 409 "Conflict", s)
  else
    let written := (v.merge change).withVersion (server.fresh s.used)
    let stored := server.store s (v.merge change)
    (⟨200, server.render written⟩,
      if written.isReleased then { stored with object := none } else stored)

/-- Answers a request for the object under a path. -/
def serve (path : String) (s : Shelf) (r : Request) : Response × Shelf :=
  match s.object with
  | none => (server.failure 404 "NotFound", s)
  | some v =>
    if r.path ≠ path then (server.failure 404 "NotFound", s)
    else
      match r.verb, r.body with
      | .get, _ => (⟨200, server.render v⟩, s)
      | .patch, some (.mergePatch, change) => server.patch s v change
      | _, _ => (server.failure 405 "MethodNotAllowed", s)

/-- What an act of another party makes of the shelf. -/
def act (s : Shelf) : Act → Shelf
  | .write v _ => server.store s v
  | .remove => { s with object := none }

/-- What is there after some acts. -/
def after (s : Shelf) (acts : List Act) : Shelf := acts.foldl server.act s

/-- A request, and what others did since the one before. -/
structure Round where
  acts : List Act
  before : Shelf
  request : Request
  response : Response
  after : Shelf

/--
An exchange with the server. Before each request others act, as the next of some lists says, and
nobody acts when there is none left.
-/
def carry {α : Type} (path : String) :
    Exchange α → (turns : List (List Act)) → Shelf → List Round × α × Shelf
  | .done a, _, s => ([], a, s)
  | .pause _ next, turns, s => carry path next turns s
  | .send request next, turns, s =>
    let before := server.after s (turns.headD [])
    let answered := server.serve path before request
    let (rounds, a, last) := carry path (next (some answered.1)) turns.tail answered.2
    (⟨turns.headD [], before, request, answered.1, answered.2⟩ :: rounds, a, last)

variable {server} {s : Shelf} {v : Json}

/-! ### Failures -/

/-- A failure is understood as it was described. -/
theorem interpret_failure {α : Type} (body : Body α) {code : Nat} (hcode : code = 404 ∨ code = 409)
    (reason : String) :
    ApiClient.interpret body (some (server.failure code reason)) =
      .error (.status ⟨"Failure", server.message code, reason, code⟩) := by
  have hread : ApiClient.failureBody.read? (server.failure code reason).text =
      some ⟨"Failure", server.message code, reason, code⟩ := by
    unfold Body.read? failure
    rw [server.parse?_render]
    rcases hcode with rfl | rfl
    · rfl
    · rfl
  have hfailure : ApiClient.isFailure (server.failure code reason).status = true := by
    rcases hcode with rfl | rfl
    · rfl
    · rfl
  show (if ApiClient.isFailure _ = true then _ else _) = _
  rw [if_pos hfailure, hread]
  rfl

/-! ### Versions -/

theorem sound_store (h : v.IsObject) (s : Shelf) : (server.store s v).Sound := by
  intro w hw
  cases hw
  obtain ⟨hobject, -, -, hversion⟩ := withVersion_spec h (server.fresh s.used)
  exact ⟨hobject, _, List.mem_cons_self, hversion⟩

theorem sound_act (s : Shelf) (a : Act) : (server.act s a).Sound := by
  cases a with
  | write v h => exact sound_store h s
  | remove => exact fun w hw => nomatch hw

theorem sound_after (hs : s.Sound) (acts : List Act) : (server.after s acts).Sound := by
  induction acts generalizing s with
  | nil => exact hs
  | cons a acts ih => exact ih (sound_act s a)

/-- A version that was given out stays so. -/
theorem used_after (acts : List Act) {version : String} (h : version ∈ s.used) :
    version ∈ (server.after s acts).used := by
  induction acts generalizing s with
  | nil => exact h
  | cons a acts ih =>
    refine ih ?_
    cases a with
    | write v _ => exact List.mem_cons_of_mem _ h
    | remove => exact h

/-- Once others have acted there is nothing, or an object with a version of which nobody knew. -/
theorem object_after (s : Shelf) {acts : List Act} (hacts : acts ≠ [])
    (hv : (server.after s acts).object = some v) :
    ∃ version, v.version? = some version ∧ version ∉ s.used := by
  -- Only the last act decides what is there, and it gave out a version after all others.
  obtain ⟨before, last, rfl⟩ := (List.eq_nil_or_concat acts).resolve_left hacts
  rw [List.concat_eq_append] at hv
  have hlast : server.after s (before ++ [last]) = server.act (server.after s before) last :=
    List.foldl_append
  rw [hlast] at hv
  cases last with
  | write w h =>
    cases hv
    obtain ⟨-, -, -, hversion⟩ := withVersion_spec h (server.fresh (server.after s before).used)
    exact ⟨_, hversion, fun hused => server.fresh_not_mem _ (used_after before hused)⟩
  | remove => cases hv

end Server

end Http

end WarmPool
