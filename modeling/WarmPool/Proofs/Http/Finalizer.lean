import WarmPool.Proofs.Http.Shelf
import WarmPool.Proofs.Http.Target

/-!
# Edits of finalizers

A finalizer is added or taken away by reading the object and patching the whole list under the
version read. Other parties may act between the two requests. Either they did nothing, and then the
list that is replaced is the one that was read, or the patch is refused (`Course`). So no other
finalizer is lost, a second call finds nothing to do, and taking a finalizer from an object that is
gone succeeds (`finalizer_edits`).
-/

namespace WarmPool.Http

open Json Server

/-! ### The two edits as one -/

/-- What is done about a finalizer. -/
inductive Edit where
  | add
  | remove
deriving DecidableEq

namespace Edit

variable {edit : Edit} {namespaceName name finalizer path : String}

/-- The call that edits the finalizers of a requirement. -/
def call (edit : Edit) (namespaceName name finalizer : String) : Exchange (Except Error Unit) :=
  match edit with
  | add => ApiClient.addFinalizer namespaceName name finalizer
  | remove => ApiClient.removeFinalizer namespaceName name finalizer

/-- What an edit makes of a list. -/
def apply (edit : Edit) (finalizer : String) (finalizers : List String) : List String :=
  match edit with
  | add => finalizers ++ [finalizer]
  | remove => finalizers.filter (· ≠ finalizer)

/-- Whether a list needs no edit. -/
def isDone (edit : Edit) (finalizer : String) (finalizers : List String) : Bool :=
  match edit with
  | add => finalizers.contains finalizer
  | remove => !finalizers.contains finalizer

/-- The result where there is no object. -/
def missing (edit : Edit) (name : String) : Except Error Unit :=
  match edit with
  | add => .error (.notFound Kind.requirement.name name)
  | remove => .ok ()

/-- The list to be written. -/
def change? (edit : Edit) (finalizer : String) (m : Metadata) : Option (List String) :=
  match edit with
  | add => m.withFinalizer? finalizer
  | remove => m.withoutFinalizer? finalizer

/-- The result of a read that failed. -/
def unread (edit : Edit) (name : String) (f : ApiFailure) : Except Error Unit :=
  match edit, f with
  | add, f => .error (ApiClient.requirementError name f)
  | remove, .status s => if s.reason = "NotFound" then .ok () else .error (.api (.status s))
  | remove, .noAnswer => .error (.api .noAnswer)

/-- The result of a patch. -/
def patched (edit : Edit) (name : String) : Except ApiFailure Requirement → Except Error Unit
  | .ok _ => .ok ()
  | .error f =>
    match edit with
    | add => .error (ApiClient.requirementError name f)
    | remove => if f.isNotFound then .ok () else .error (.api f)

theorem change?_eq (edit : Edit) (finalizer : String) (m : Metadata) :
    edit.change? finalizer m =
      if edit.isDone finalizer (m.finalizers.getD []) then none
      else some (edit.apply finalizer (m.finalizers.getD [])) := by
  cases edit with
  | add => rfl
  | remove =>
    unfold change? isDone Metadata.withoutFinalizer? Metadata.hasFinalizer
    cases (m.finalizers.getD []).contains finalizer <;> rfl

/-- After an edit there is nothing to do. -/
theorem isDone_apply (edit : Edit) (finalizer : String) (finalizers : List String) :
    edit.isDone finalizer (edit.apply finalizer finalizers) = true := by
  cases edit with
  | add => simp [isDone, apply]
  | remove => simp [isDone, apply]

/-! ### The requests -/

/-- The path of a requirement. -/
def place (namespaceName name : String) : String :=
  ApiClient.collection namespaceName .requirement ++ "/" ++ name

theorem isPathText_place (hnamespace : IsPathText namespaceName) (hname : IsPathText name) :
    IsPathText (place namespaceName name) := by
  have hfront : IsPathText ("/apis/" ++ apiVersion ++ "/namespaces/") := by decide
  have hplural : IsPathText "requirements" := by decide
  have hslash : IsPathText "/" := by decide
  exact ((((hfront.append hnamespace).append hslash).append hplural).append hslash).append hname

/-- What is done with the answer to the read. -/
def follow (edit : Edit) (namespaceName name finalizer : String) :
    Except ApiFailure Requirement → Exchange (Except Error Unit)
  | .error f => .done (edit.unread name f)
  | .ok r =>
    match edit.change? finalizer r.metadata with
    | none => .done (.ok ())
    | some finalizers =>
      (ApiClient.patchFinalizers namespaceName name r finalizers).bind fun result =>
        .done (edit.patched name result)

/-- First the object is read. -/
theorem call_eq (hplace : IsPathText (place namespaceName name)) (hname : name ≠ "") :
    edit.call namespaceName name finalizer =
      .send ⟨.get, place namespaceName name, [], none⟩ fun response =>
        edit.follow namespaceName name finalizer
          (ApiClient.interpret .requirement response) := by
  have hget : ApiClient.get .requirement (ApiClient.collection namespaceName .requirement) name =
      .send ⟨.get, place namespaceName name, [], none⟩ fun response =>
        .done (ApiClient.interpret .requirement response) := by
    unfold ApiClient.get ApiClient.member?
    rw [if_neg (by simpa using hname), Option.bind_some]
    show ApiClient.fetch _ (Request.ofTarget? .get (place namespaceName name) [] none) = _
    rw [Request.ofTarget?_get hplace]
    rfl
  cases edit with
  | add =>
    show ApiClient.addFinalizer namespaceName name finalizer = _
    unfold ApiClient.addFinalizer
    rw [hget]
    refine congrArg (Exchange.send _) (funext fun response => ?_)
    show Exchange.bind (.done (ApiClient.interpret .requirement response)) _ = _
    cases ApiClient.interpret Body.requirement response with
    | error f => rfl
    | ok r =>
      show (match r.metadata.withFinalizer? finalizer with
        | none => Exchange.done (Except.ok ())
        | some finalizers => Exchange.bind _ _) = _
      unfold follow change?
      dsimp only
      cases r.metadata.withFinalizer? finalizer with
      | none => rfl
      | some finalizers =>
        refine congrArg (Exchange.bind (ApiClient.patchFinalizers namespaceName name r finalizers))
          (funext fun result => ?_)
        cases result <;> rfl
  | remove =>
    show ApiClient.removeFinalizer namespaceName name finalizer = _
    unfold ApiClient.removeFinalizer ApiClient.getOption
    rw [hget]
    refine congrArg (Exchange.send _) (funext fun response => ?_)
    show Exchange.bind (Exchange.bind (.done (ApiClient.interpret .requirement response)) _) _ = _
    cases ApiClient.interpret Body.requirement response with
    | error f =>
      cases f with
      | status s =>
        show Exchange.bind (ite _ _ _) _ = Exchange.done (ite _ _ _)
        split <;> rfl
      | noAnswer => rfl
    | ok r =>
      show (match r.metadata.withoutFinalizer? finalizer with
        | none => Exchange.done (Except.ok ())
        | some finalizers => Exchange.bind _ _) = _
      unfold follow change?
      dsimp only
      -- Both go on by the same list; only the failures of the patch are written differently.
      cases r.metadata.withoutFinalizer? finalizer with
      | none => rfl
      | some finalizers =>
        refine congrArg (Exchange.bind (ApiClient.patchFinalizers namespaceName name r finalizers))
          (funext fun result => ?_)
        cases result with
        | ok r => rfl
        | error f =>
          show (ite _ _ _ : Exchange (Except Error Unit)) = .done (ite _ _ _)
          split <;> rfl

/-- Then the list is patched under the version that was read. -/
theorem patchFinalizers_eq (hplace : IsPathText (place namespaceName name)) (hname : name ≠ "")
    (r : Requirement) (finalizers : List String) :
    ∃ query, ApiClient.patchFinalizers namespaceName name r finalizers =
      .send ⟨.patch, place namespaceName name, query, some (.mergePatch,
          ApiClient.guarded r.metadata.resourceVersion "finalizers" (ofStrings finalizers))⟩
        fun response => .done (ApiClient.interpret .requirement response) := by
  let change := ApiClient.guarded r.metadata.resourceVersion "finalizers" (ofStrings finalizers)
  obtain ⟨query, hrequest⟩ := @Request.ofTarget?_patch _ (some (.mergePatch, change)) hplace
    [("fieldManager", ApiClient.fieldManager)]
  refine ⟨query, ?_⟩
  have hmanager : ((some ApiClient.fieldManager).map (·.utf8ByteSize)).getD 0 ≤
      ApiClient.maxManagerLength := by decide
  unfold ApiClient.patchFinalizers ApiClient.patch ApiClient.member?
  rw [if_pos hmanager, if_neg (by simpa using hname), Option.bind_some, String.append_empty]
  show ApiClient.fetch _ (Request.ofTarget? .patch (place namespaceName name)
    [("fieldManager", ApiClient.fieldManager)] _) = _
  rw [hrequest]
  rfl

/-! ### What a patch makes of an object -/

/-- An object with other finalizers, and with the version that the server gives it. -/
structure Edited (finalizers : List String) (v w : Json) : Prop where
  finalizers : w.finalizers = finalizers
  metadata : ∀ key, key ≠ "finalizers" → key ≠ "resourceVersion" →
    w.metadataField? key = v.metadataField? key
  rest : ∀ key, key ≠ "metadata" → w.get? key = v.get? key

theorem wellFormed_ofStrings (l : List String) : (ofStrings l).WellFormed := by
  refine wellFormedItems_iff.2 fun v hv => ?_
  obtain ⟨s, -, rfl⟩ := List.mem_map.1 hv
  exact trivial

/-- What the patch of a list makes of an object. -/
theorem edited_of_merge {v : Json} (hv : v.IsObject) (version fresh : String)
    (finalizers : List String) :
    let w := (v.merge (ApiClient.guarded (some version) "finalizers"
      (ofStrings finalizers))).withVersion fresh
    w.IsObject ∧ w.version? = some fresh ∧ Edited finalizers v w := by
  intro w
  obtain ⟨hobject, hrest, hmetadata⟩ := merge_metadata hv
    (p := [("resourceVersion", .string version), ("finalizers", ofStrings finalizers)])
    (show ["resourceVersion", "finalizers"].Nodup by decide)
    ⟨trivial, wellFormed_ofStrings finalizers, trivial⟩
  obtain ⟨hw, hwrest, hwmetadata, hwversion⟩ := withVersion_spec hobject fresh
  refine ⟨hw, hwversion, ?_, fun key hfinalizers hversion => ?_, fun key hkey => ?_⟩
  · have hlist : w.metadataField? "finalizers" = some (ofStrings finalizers) :=
      (hwmetadata "finalizers" (by decide)).trans (hmetadata "finalizers")
    unfold Json.finalizers
    rw [hlist, Option.bind_some, toStrings?_ofStrings]
    rfl
  · refine (hwmetadata key hversion).trans ((hmetadata key).trans ?_)
    rw [lookup?_cons, if_neg (Ne.symm hversion), lookup?_cons, if_neg (Ne.symm hfinalizers)]
    rfl
  · exact (hwrest key hkey).trans (hrest key hkey)

/-- An object that just got a finalizer has to wait for it. -/
theorem Edited.not_released {v w : Json} {finalizers : List String}
    (h : Edited (add.apply finalizer finalizers) v w) : w.isReleased = false := by
  unfold isReleased
  rw [h.finalizers]
  simp [apply]

/-! ### What comes of a call -/

variable {server : Server} {s : Shelf}

theorem serve_missing (h : s.object = none) (request : Request) :
    server.serve path s request = (server.failure 404 "NotFound", s) := by
  unfold Server.serve
  rw [h]

theorem serve_get {v : Json} (h : s.object = some v) :
    server.serve path s ⟨.get, path, [], none⟩ = (⟨200, server.render v⟩, s) := by
  unfold Server.serve
  rw [h]
  exact if_neg (not_not_intro rfl)

theorem serve_patch {v change : Json} (h : s.object = some v) (query : List String) :
    server.serve path s ⟨.patch, path, query, some (.mergePatch, change)⟩ =
      server.patch s v change := by
  unfold Server.serve
  rw [h]
  exact if_neg (not_not_intro rfl)

/-- What comes of a call after the object was read in the first round. -/
inductive Course (server : Server) (edit : Edit) (name finalizer : String) (first : Round) :
    List Round → Except Error Unit → Shelf → Prop
  /-- There was nothing to read. -/
  | missing (h : first.before.object = none) :
      Course server edit name finalizer first [] (edit.missing name) first.before
  /-- What is there was not understood. -/
  | unread {v : Json} {e : Error} (hv : first.before.object = some v)
      (hread : Body.requirement.read? (server.render v) = none) :
      Course server edit name finalizer first [] (.error e) first.before
  /-- There was nothing to do. -/
  | done {v : Json} (hv : first.before.object = some v)
      (hread : (Body.requirement.read? (server.render v)).isSome)
      (hdone : edit.isDone finalizer v.finalizers = true) :
      Course server edit name finalizer first [] (.ok ()) first.before
  /-- The object went before it was patched. -/
  | vanished {v : Json} {patch : Round} (hv : first.before.object = some v)
      (hopen : edit.isDone finalizer v.finalizers = false)
      (hbefore : patch.before.object = none) (hafter : patch.after = patch.before) :
      Course server edit name finalizer first [patch] (edit.missing name) patch.before
  /-- The object was written before it was patched. -/
  | refused {v w : Json} {patch : Round} {e : Error} (hv : first.before.object = some v)
      (hopen : edit.isDone finalizer v.finalizers = false)
      (hbefore : patch.before.object = some w) (hafter : patch.after = patch.before)
      (hconflict : e.isConflict = true) :
      Course server edit name finalizer first [patch] (.error e) patch.before
  /-- The list was replaced, and nobody had acted since it was read. -/
  | applied {v w : Json} {patch : Round} {result : Except Error Unit}
      (hv : first.before.object = some v)
      (hopen : edit.isDone finalizer v.finalizers = false) (hacts : patch.acts = [])
      (hbefore : patch.before = first.before)
      (hedited : Edited (edit.apply finalizer v.finalizers) v w)
      (hafter : patch.after.object = if w.isReleased then none else some w)
      (hread : result = .ok () → (Body.requirement.read? (server.render w)).isSome) :
      Course server edit name finalizer first [patch] result patch.after

theorem interpret_text {α : Type} (body : Body α) (text : String) :
    ApiClient.interpret body (some ⟨200, text⟩) =
      match body.read? text with
      | some a => .ok a
      | none => .error .noAnswer := rfl

theorem unread_notFound (edit : Edit) (name message : String) :
    edit.unread name (.status ⟨"Failure", message, "NotFound", 404⟩) = edit.missing name := by
  cases edit with
  | add => rfl
  | remove => rfl

theorem patched_notFound (edit : Edit) (name message : String) :
    edit.patched name (.error (.status ⟨"Failure", message, "NotFound", 404⟩)) =
      edit.missing name := by
  cases edit with
  | add => rfl
  | remove => rfl

theorem patched_conflict (edit : Edit) (name message : String) :
    ∃ e : Error, edit.patched name (.error (.status ⟨"Failure", message, "Conflict", 409⟩)) =
      .error e ∧ e.isConflict = true := by
  cases edit with
  | add => exact ⟨_, rfl, rfl⟩
  | remove => exact ⟨_, rfl, rfl⟩

theorem carry_send {α : Type} (path : String) (request : Request)
    (next : Option Response → Exchange α) (turns : List (List Act)) (s : Shelf) :
    server.carry path (.send request next) turns s =
      let before := server.after s (turns.headD [])
      let answered := server.serve path before request
      let carried := server.carry path (next (some answered.1)) turns.tail answered.2
      (⟨turns.headD [], before, request, answered.1, answered.2⟩ :: carried.1, carried.2) := rfl

/-- What comes of the patch, where others may have acted since the object was read. -/
theorem patch_course {first : Round} {v : Json} {version : String}
    (hsound : first.before.Sound) (hobject : first.before.object = some v)
    (hversion : v.version? = some version) (hused : version ∈ first.before.used)
    (hopen : edit.isDone finalizer v.finalizers = false)
    (query : List String) (turns : List (List Act)) :
    ∃ patch result last,
      server.carry path
          (.send ⟨.patch, path, query, some (.mergePatch, ApiClient.guarded (some version)
              "finalizers" (ofStrings (edit.apply finalizer v.finalizers)))⟩ fun response =>
            .done (edit.patched name (ApiClient.interpret .requirement response)))
          turns first.before = ([patch], result, last) ∧
        last.Sound ∧ Course server edit name finalizer first [patch] result last := by
  have hthen : (server.after first.before (turns.headD [])).Sound := sound_after hsound _
  rw [carry_send]
  dsimp only
  cases hnow : (server.after first.before (turns.headD [])).object with
  | none =>
    rw [serve_missing hnow, interpret_failure _ (.inl rfl), patched_notFound]
    exact ⟨_, _, _, rfl, hthen, .vanished hobject hopen hnow rfl⟩
  | some w =>
    rw [serve_patch hnow]
    unfold Server.patch
    have hseen : (ApiClient.guarded (some version) "finalizers"
        (ofStrings (edit.apply finalizer v.finalizers))).version? = some version := rfl
    rw [hseen]
    by_cases hacts : turns.headD [] = []
    · -- Nobody acted, so the object is the one that was read.
      have hsame : server.after first.before (turns.headD []) = first.before := by
        rw [hacts]
        rfl
      rw [hsame] at hnow ⊢
      obtain rfl : v = w := Option.some.inj (hobject.symm.trans hnow)
      rw [if_neg (fun hstale => hstale.2 hversion.symm)]
      dsimp only
      obtain ⟨hw, hwversion, hedited⟩ := edited_of_merge (hsound v hobject).1 version
        (server.fresh first.before.used) (edit.apply finalizer v.finalizers)
      refine ⟨_, _, _, rfl, ?_,
        .applied hobject hopen hacts rfl hedited ?_ fun hresult => ?_⟩
      · split
        · exact fun x hx => nomatch hx
        · rintro x ⟨⟩
          exact ⟨hw, _, List.mem_cons_self, hwversion⟩
      · dsimp only
        split
        · rfl
        · rfl
      · rw [interpret_text] at hresult
        split at hresult
        · next r hread =>
          exact Option.isSome_of_eq_some hread
        · cases edit <;> cases hresult
    · -- Somebody did, so it has a version that nobody knew when it was read.
      obtain ⟨other, hother, hnew⟩ := object_after first.before hacts hnow
      have hstale : some version ≠ w.version? := by
        rw [hother]
        rintro ⟨⟩
        exact hnew hused
      obtain ⟨e, he, hconflict⟩ := patched_conflict edit name (server.message 409)
      rw [if_pos ⟨rfl, hstale⟩, interpret_failure _ (.inr rfl), he]
      exact ⟨_, _, _, rfl, hthen, .refused hobject hopen hnow rfl hconflict⟩

/-- A call takes one of the courses. -/
theorem course (hplace : IsPathText (place namespaceName name)) (hname : name ≠ "")
    (hs : s.Sound) (server : Server) (edit : Edit) (finalizer : String)
    (turns : List (List Act)) :
    ∃ first rest result last,
      server.carry (place namespaceName name) (edit.call namespaceName name finalizer) turns s =
        (first :: rest, result, last) ∧
      first.before = server.after s (turns.headD []) ∧ first.after = first.before ∧
      first.request.verb = .get ∧ last.Sound ∧
      Course server edit name finalizer first rest result last := by
  have hsound : (server.after s (turns.headD [])).Sound := sound_after hs _
  rw [call_eq hplace hname, carry_send]
  dsimp only
  generalize server.after s (turns.headD []) = before at hsound ⊢
  cases hobject : before.object with
  | none =>
    rw [serve_missing hobject, interpret_failure _ (.inl rfl)]
    dsimp only [follow]
    rw [unread_notFound]
    exact ⟨_, _, _, _, rfl, rfl, rfl, rfl, hsound, .missing hobject⟩
  | some v =>
    obtain ⟨hv, version, hused, hversion⟩ := hsound v hobject
    rw [serve_get hobject]
    dsimp only
    cases hread : Body.requirement.read? (server.render v) with
    | none =>
      obtain ⟨e, he⟩ : ∃ e, edit.unread name .noAnswer = .error e := by
        cases edit <;> exact ⟨_, rfl⟩
      rw [interpret_text, hread]
      dsimp only [follow]
      rw [he]
      exact ⟨_, _, _, _, rfl, rfl, rfl, rfl, hsound, .unread hobject hread⟩
    | some r =>
      -- What was read shows the version and the finalizers of what is stored.
      obtain ⟨hshown, hfinalizers⟩ :=
        Body.requirement_of_read? hv (server.parse?_render v) hread
      rw [interpret_text, hread]
      unfold follow
      dsimp only
      rw [change?_eq, hfinalizers]
      cases hdone : edit.isDone finalizer v.finalizers with
      | true =>
        have hreads : (Body.requirement.read? (server.render v)).isSome := by rw [hread]; rfl
        exact ⟨_, _, _, _, rfl, rfl, rfl, rfl, hsound, .done hobject hreads hdone⟩
      | false =>
        rw [if_neg Bool.false_ne_true]
        dsimp only
        obtain ⟨query, hpatch⟩ :=
          patchFinalizers_eq hplace hname r (edit.apply finalizer v.finalizers)
        let first : Round := ⟨turns.headD [], before, ⟨.get, place namespaceName name, [], none⟩,
          ⟨200, server.render v⟩, before⟩
        obtain ⟨patch, result, last, hcarry, hlast, hcourse⟩ :=
          @patch_course edit name finalizer (place namespaceName name) server first v version
            hsound hobject hversion hused hdone query turns.tail
        refine ⟨first, [patch], result, last, ?_, rfl, rfl, rfl, hlast, hcourse⟩
        rw [hpatch, hshown, hversion]
        exact congrArg (fun carried => (first :: carried.1, carried.2)) hcarry

/-! ### Nothing is lost -/

section Consequences

variable {first : Round} {rest : List Round} {result : Except Error Unit} {last : Shelf}

/-- What a round of a call changes is the list, as the edit says. -/
theorem Course.edited (h : Course server edit name finalizer first rest result last)
    {round : Round} (hround : round ∈ rest) (hchanged : round.after ≠ round.before) :
    ∃ v w, round.before.object = some v ∧
      Edited (edit.apply finalizer v.finalizers) v w ∧
      round.after.object = if w.isReleased then none else some w := by
  cases h with
  | missing | unread | done => cases hround
  | vanished _ _ _ hafter =>
    rw [List.mem_singleton.1 hround] at hchanged
    exact absurd hafter hchanged
  | refused _ _ _ hafter _ =>
    rw [List.mem_singleton.1 hround] at hchanged
    exact absurd hafter hchanged
  | applied hv _ _ hbefore hedited hafter _ =>
    rw [List.mem_singleton.1 hround, hbefore]
    exact ⟨_, _, hv, hedited, hafter⟩

/-- A patch of an object that was written since it was read is refused. -/
theorem Course.conflict (h : Course server edit name finalizer first rest result last)
    {round : Round} (hround : round ∈ rest) (hobject : round.before.object.isSome)
    (hacts : round.acts ≠ []) :
    (∃ e, result = .error e ∧ e.isConflict = true) ∧
      ∀ other ∈ rest, other.after = other.before := by
  cases h with
  | missing | unread | done => cases hround
  | vanished _ _ hbefore _ =>
    rw [List.mem_singleton.1 hround, hbefore] at hobject
    cases hobject
  | refused _ _ _ hafter hconflict =>
    refine ⟨⟨_, rfl, hconflict⟩, fun other hother => ?_⟩
    rw [List.mem_singleton.1 hother]
    exact hafter
  | applied _ _ hnone =>
    rw [List.mem_singleton.1 hround] at hacts
    exact absurd hnone hacts

/-- Where the object is gone the result says so, and nothing changes. -/
theorem Course.gone (h : Course server edit name finalizer first rest result last)
    {round : Round} (hround : round ∈ first :: rest) (hobject : round.before.object = none) :
    result = edit.missing name ∧ ∀ other ∈ rest, other.after = other.before := by
  have hcases : round = first ∨ round ∈ rest := List.mem_cons.1 hround
  cases h with
  | missing => exact ⟨rfl, fun other hother => nomatch hother⟩
  | unread hv =>
    obtain rfl := hcases.resolve_right fun hmem => nomatch hmem
    cases hobject.symm.trans hv
  | done hv =>
    obtain rfl := hcases.resolve_right fun hmem => nomatch hmem
    cases hobject.symm.trans hv
  | vanished _ _ _ hafter =>
    refine ⟨rfl, fun other hother => ?_⟩
    rw [List.mem_singleton.1 hother]
    exact hafter
  | refused hv _ hbefore _ _ =>
    rcases hcases with rfl | hmem
    · cases hobject.symm.trans hv
    · rw [List.mem_singleton.1 hmem] at hobject
      cases hobject.symm.trans hbefore
  | applied hv _ _ hbefore _ _ _ =>
    rcases hcases with rfl | hmem
    · cases hobject.symm.trans hv
    · rw [List.mem_singleton.1 hmem, hbefore] at hobject
      cases hobject.symm.trans hv

/-- A call has nothing to do: there is no object, which counts as success, or no need. -/
def Settled (server : Server) (edit : Edit) (name finalizer : String) (s : Shelf) : Prop :=
  (s.object = none ∧ edit.missing name = .ok ()) ∨
    ∃ v, s.object = some v ∧ (Body.requirement.read? (server.render v)).isSome ∧
      edit.isDone finalizer v.finalizers = true

/-- A call that succeeded leaves nothing to do. -/
theorem Course.settled (h : Course server edit name finalizer first rest result last)
    (hresult : result = .ok ()) : Settled server edit name finalizer last := by
  cases h with
  | missing hnone => exact .inl ⟨hnone, hresult⟩
  | unread => cases hresult
  | done hv hread hdone => exact .inr ⟨_, hv, hread, hdone⟩
  | vanished _ _ hnone _ => exact .inl ⟨hnone, hresult⟩
  | refused => cases hresult
  | @applied v w _ _ _ _ _ _ hedited hafter hread =>
    by_cases hreleased : w.isReleased = true
    · -- Only an edit that takes a finalizer away can release the object.
      rw [if_pos hreleased] at hafter
      cases edit with
      | add => exact absurd hreleased (by rw [hedited.not_released]; exact Bool.false_ne_true)
      | remove => exact .inl ⟨hafter, rfl⟩
    · rw [if_neg hreleased] at hafter
      have hdone : edit.isDone finalizer w.finalizers = true := by
        rw [hedited.finalizers]
        exact isDone_apply edit finalizer v.finalizers
      exact .inr ⟨w, hafter, hread hresult, hdone⟩

/-- A call on what needs no edit succeeds and changes nothing. -/
theorem Course.again (h : Course server edit name finalizer first rest result last)
    (hsettled : Settled server edit name finalizer first.before) :
    result = .ok () ∧ last = first.before := by
  rcases hsettled with ⟨hnone, hmissing⟩ | ⟨v, hv, hread, hdone⟩
  · cases h with
    | missing => exact ⟨hmissing, rfl⟩
    | unread hw => cases hnone.symm.trans hw
    | done hw => cases hnone.symm.trans hw
    | vanished hw => cases hnone.symm.trans hw
    | refused hw => cases hnone.symm.trans hw
    | applied hw => cases hnone.symm.trans hw
  · cases h with
    | missing hnone => cases hnone.symm.trans hv
    | unread hw hunread =>
      cases hv.symm.trans hw
      rw [hunread] at hread
      cases hread
    | done => exact ⟨rfl, rfl⟩
    | vanished hw hopen =>
      cases hv.symm.trans hw
      cases hdone.symm.trans hopen
    | refused hw hopen =>
      cases hv.symm.trans hw
      cases hdone.symm.trans hopen
    | applied hw hopen =>
      cases hv.symm.trans hw
      cases hdone.symm.trans hopen

end Consequences

/--
An edit of the finalizers of a requirement, whatever others do before each request. What it changes
is the list that is stored when the patch arrives, and by the finalizer alone, where an object goes
with its last finalizer if its deletion was asked for. If another party has written the object since
it was read, a patch that is sent meets a conflict and changes nothing. A call that succeeded may be
repeated without changing anything, and one that takes a finalizer away succeeds if the object is
gone.
-/
theorem finalizer_edits (server : Server) (edit : Edit) {namespaceName name : String}
    (finalizer : String) (hnamespace : IsPathText namespaceName) (hname : IsPathText name)
    (hnonempty : name ≠ "") {s : Shelf} (hs : s.Sound) (turns : List (List Act)) :
    let call := edit.call namespaceName name finalizer
    let path := place namespaceName name
    let rounds := (server.carry path call turns s).1
    let result := (server.carry path call turns s).2.1
    let last := (server.carry path call turns s).2.2
    (∀ round ∈ rounds, round.after ≠ round.before → ∃ v w, round.before.object = some v ∧
      Edited (edit.apply finalizer v.finalizers) v w ∧
      round.after.object = if w.isReleased then none else some w) ∧
    (∀ round ∈ rounds, round.request.verb = .patch → round.before.object.isSome →
      (∃ a ∈ round.acts, a.isWrite = true) →
      (∃ e, result = .error e ∧ e.isConflict = true) ∧
        ∀ other ∈ rounds, other.after = other.before) ∧
    (result = .ok () → (server.carry path call [] last).2 = (.ok (), last)) ∧
    (edit = .remove → ∀ round ∈ rounds, round.before.object = none →
      result = .ok () ∧ ∀ other ∈ rounds, other.after = other.before) := by
  have hplace := isPathText_place hnamespace hname
  obtain ⟨first, rest, result, last, hcarry, -, hread, hverb, hlast, hcourse⟩ :=
    course hplace hnonempty hs server edit finalizer turns
  dsimp only
  rw [hcarry]
  -- The first round reads, so it changes nothing.
  have hall (h : ∀ other ∈ rest, other.after = other.before) :
      ∀ other ∈ first :: rest, other.after = other.before :=
    List.forall_mem_cons.2 ⟨hread, h⟩
  refine ⟨fun round hround hchanged => ?_, fun round hround hpatch hobject hwritten => ?_,
    fun hok => ?_, fun hremove round hround hnone => ?_⟩
  · rcases List.mem_cons.1 hround with rfl | hround
    · exact absurd hread hchanged
    · exact hcourse.edited hround hchanged
  · rcases List.mem_cons.1 hround with rfl | hround
    · rw [hverb] at hpatch
      cases hpatch
    · obtain ⟨a, ha, -⟩ := hwritten
      obtain ⟨hconflict, hsame⟩ := hcourse.conflict hround hobject (List.ne_nil_of_mem ha)
      exact ⟨hconflict, hall hsame⟩
  · -- The second call meets what the first one left.
    obtain ⟨again, rest', result', last', hcarry', hbefore, -, -, -, hcourse'⟩ :=
      course hplace hnonempty hlast server edit finalizer []
    have hsettled : Settled server edit name finalizer again.before := by
      rw [hbefore]
      exact hcourse.settled hok
    obtain ⟨rfl, rfl⟩ := hcourse'.again hsettled
    rw [hcarry', hbefore]
    rfl
  · subst hremove
    obtain ⟨hmissing, hsame⟩ := hcourse.gone hround hnone
    exact ⟨hmissing, hall hsame⟩

/-- A requirement that waits for one finalizer. -/
def sampleObject : Json :=
  .object
    [("metadata", .object
        [("resourceVersion", .string "1"), ("finalizers", ofStrings ["backup"])]),
      ("spec", .object [("template", .object [])])]

/-- A shelf with the requirement. -/
def sampleShelf : Shelf := ⟨some sampleObject, ["1"]⟩

theorem sampleShelf_sound : sampleShelf.Sound := by
  rintro v ⟨⟩
  refine ⟨⟨?_, _, _, rfl, rfl⟩, "1", List.mem_cons_self, rfl⟩
  simp [sampleObject, WellFormed, WellFormedFields, wellFormed_ofStrings]

/-- What comes of adding a finalizer to it, with nobody else around. -/
def sampleRun : List Round × Except Error Unit × Shelf :=
  Server.plain.carry (place "dev" "sample") (add.call "dev" "sample" "warm") [] sampleShelf

theorem sampleRun_result : sampleRun.2.1 = .ok () ∧
    sampleRun.2.2.object.map Json.finalizers = some ["backup", "warm"] := by
  decide +kernel

theorem finalizer_edits_alone : sampleShelf.Sound ∧
    sampleRun.2.2.object.map Json.finalizers = some ["backup", "warm"] ∧
    (Server.plain.carry (place "dev" "sample") (add.call "dev" "sample" "warm") []
      sampleRun.2.2).2 = (.ok (), sampleRun.2.2) := by
  have hnamespace : IsPathText "dev" := by decide
  have hname : IsPathText "sample" := by decide
  obtain ⟨hok, hlist⟩ := sampleRun_result
  obtain ⟨-, -, hrepeated, -⟩ := finalizer_edits Server.plain add "warm" hnamespace hname
    (by decide) sampleShelf_sound []
  refine ⟨sampleShelf_sound, hlist, ?_⟩
  unfold sampleRun at hok ⊢
  exact hrepeated hok

end Edit

end WarmPool.Http
