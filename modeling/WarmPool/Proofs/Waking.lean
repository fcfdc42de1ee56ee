import WarmPool.Proofs.Custody
import WarmPool.Wakeup

/-!
# Complete wake-ups

Wake-ups are read off owner references and stored keys, which reconciles write elsewhere. Both
agree (`complete_wakeups`): an operation that a requirement made or claimed wakes it as long as it
refers to it, and a cache wakes just those that search its pool. Neither depends on how reconciles
overlap or how old their requirements are, since a reference tells the place of its owner for good
(`Registry.Traces`) and no status that is written loses a key (`RequirementStatus.Suits`).
-/

namespace WarmPool

open Reconcile

/-! ### The surroundings -/

/-- Which requirement has a UID, and what is asked for where: neither changes in a run. -/
structure Registry where
  /-- The namespace and the name of the requirement with a UID, if a requirement ever has it. -/
  place? : String → Option (String × String)
  /-- The specification of the requirements with a namespace and a name. -/
  spec : String → String → RequirementSpec

/-- The requirement is at a place, with a UID and the specification for that place. -/
structure Registry.Lists (g : Registry) (namespaceName name : String) (r : Requirement) : Prop where
  isAt : r.metadata.isAt namespaceName name = true
  spec : r.spec = g.spec namespaceName name
  uid : ∀ uid, r.metadata.uid = some uid → g.place? uid = some (namespaceName, name)
  timely : r.Timely

/-- The present state and those before, the latest first. -/
def World.states (w : World) : List Cluster := w.cluster :: w.former

/--
A reconcile starts from any version that is or was stored, reads may be as old, and reconciles of
one requirement may overlap. Others create requirements without a status, remove them and change
them but for their specification and their status, and they add no reference to a requirement.
-/
def Registry.watched (g : Registry) : Surroundings where
  starts w occasion r := occasion.now.Valid ∧ ∃ c ∈ w.states, r ∈ c.requirements
  views w view := view ∈ w.states
  license :=
    { requirements := fun c l => ∀ r' ∈ l, ∃ namespaceName name, g.Lists namespaceName name r' ∧
        (r'.status = none ∨ ∃ r ∈ c.requirements,
          r.metadata.isAt namespaceName name = true ∧ r'.status = r.status)
      write := fun old new => ∀ o ∈ new.metadata.owners, (g.place? o.uid).isSome →
        o ∈ old.metadata.owners
      make := fun new => ∀ o ∈ new.metadata.owners, g.place? o.uid = none }

theorem Registry.watched_faithful (g : Registry) : g.watched.Faithful :=
  fun _ _ h => List.mem_cons.1 h

/-- Requirements as they are created, none of which is referred to. -/
structure Registry.Opens (g : Registry) (c : Cluster) : Prop where
  orderly : c.Orderly
  lists : ∀ r ∈ c.requirements, ∃ namespaceName name, g.Lists namespaceName name r
  status : ∀ r ∈ c.requirements, r.status = none
  unreferenced : ∀ op ∈ c.operations, ∀ o ∈ op.metadata.owners, g.place? o.uid = none

/-! ### Keys -/

/--
A status that suits a specification: with caching, there is a key once the requirement has been
taken in, and without, no pool is searched.
-/
structure RequirementStatus.Suits (s : RequirementStatus) (spec : RequirementSpec) : Prop where
  key : spec.enableCache = true →
    s.phase = .cacheChecking ∨ s.phase = .operating ∨ s.phase = .ready → s.key.isSome
  plain : spec.enableCache = false → s.phase ≠ .cacheChecking

namespace RequirementStatus

variable {s before : RequirementStatus} {spec : RequirementSpec}

theorem suits_initial (spec : RequirementSpec) : Suits {} spec := by
  constructor
  · simp
  · simp

theorem Suits.of_phase_key (h : before.Suits spec) (hphase : s.phase = before.phase)
    (hkey : s.key = before.key) : s.Suits spec := by
  obtain ⟨hkeyed, hplain⟩ := h
  rw [← hphase] at hkeyed hplain
  rw [← hkey] at hkeyed
  exact ⟨hkeyed, hplain⟩

/-- A key is not lost when another status is laid over it. -/
theorem Suits.laidOver (h : s.Suits spec) (before : RequirementStatus) :
    (s.laidOver before).Suits spec := by
  refine ⟨fun hcache hphase => ?_, h.plain⟩
  obtain ⟨key, hkey⟩ := Option.isSome_iff_exists.1 (h.key hcache hphase)
  rw [laidOver_key, hkey]
  rfl

end RequirementStatus

/-- Whatever a reconcile writes suits, if what it knows does. -/
theorem Reconcile.Writes.suits {r : Requirement} {past : List Answered} {s : RequirementStatus}
    (h : Writes r past s) (hknown : r.known.Suits r.spec) : s.Suits r.spec := by
  cases h with
  | deletion _ hphase _ =>
    refine ⟨fun _ hlater => ?_, fun _ => ?_⟩
    · rcases hphase with hphase | hphase
      · simp [hphase] at hlater
      · simp [hphase] at hlater
    · rcases hphase with hphase | hphase
      · simp [hphase]
      · simp [hphase]
  | invalid _ _ hphase hkey => exact hknown.of_phase_key hphase hkey
  | taken _ _ hcache hplain =>
    refine ⟨fun hcaching _ => (hcache hcaching).2, fun hcaching => ?_⟩
    simp [hplain hcaching]
  | searched hadvances _ hkey =>
    refine ⟨fun _ _ => ?_, fun hcaching => absurd hadvances.2.2 (hknown.plain hcaching)⟩
    rw [hkey]
    rfl
  | followed hadvances hphase hkey =>
    have hlater : r.known.phase = .operating ∨ r.known.phase = .ready :=
      hadvances.imp (·.2.2) (·.2.2)
    refine ⟨fun hcaching _ => hkey ▸ hknown.key hcaching (.inr hlater), fun hcaching => ?_⟩
    rcases hphase with hphase | hphase | ⟨-, hcaching'⟩
    · simp [hphase]
    · simp [hphase]
    · rw [hcaching] at hcaching'
      cases hcaching'

namespace Cache

/-- The key in the name of a cache is the one it is named for. -/
theorem keyInName?_nameForKey (key : String) : keyInName? (nameForKey key) = some key := by
  unfold keyInName? nameForKey
  rw [String.toList_append, String.toList_ofList, if_pos (by simp), List.drop_left,
    String.ofList_toList]

/-- A cache is named for the key in its name only. -/
theorem nameForKey_of_keyInName? {name key : String} (h : keyInName? name = some key) :
    nameForKey key = name := by
  unfold keyInName? at h
  split at h
  · rename_i hprefix
    obtain ⟨rest, hrest⟩ := List.isPrefixOf_iff_prefix.1 hprefix
    cases h
    rw [← String.toList_inj]
    unfold nameForKey
    rw [String.toList_append, String.toList_ofList, String.toList_ofList, ← hrest, List.drop_left]
  · cases h

end Cache

/-- The name of the cache that a requirement looks for. -/
def Reconcile.soughtCache (r : Requirement) : String := Cache.nameForKey (soughtKey r r.known)

/-- A cache is looked for while the pool is searched, and it is this one. -/
theorem Reconcile.Move.getCache_cases {occasion : Occasion} {r : Requirement}
    {past : List Answered} {name : String} (h : Move occasion r past (.getCache name)) :
    AdvancesFrom r .cacheChecking ∧ name = soughtCache r := by
  cases h with
  | getCache h => exact ⟨h, rfl⟩

/-- Whether a requirement searches for a cache, and this is the one. -/
def Requirement.Awaits (r : Requirement) (cache : Cache) : Prop :=
  r.phase = .cacheChecking ∧ r.metadata.namespaceName = cache.metadata.namespaceName ∧
    soughtCache r = cache.name

instance (r : Requirement) (cache : Cache) : Decidable (r.Awaits cache) :=
  inferInstanceAs (Decidable (_ ∧ _ ∧ _))

/-- Nobody waits for a cache that is not named for a key. -/
theorem Requirement.not_awaits {r : Requirement} {cache : Cache}
    (hname : Cache.keyInName? cache.name = none) : ¬ r.Awaits cache := by
  rintro ⟨-, -, hsame⟩
  rw [← hsame] at hname
  unfold soughtCache at hname
  rw [Cache.keyInName?_nameForKey] at hname
  cases hname

/-- The namespace and the name by which a requirement is woken. -/
def Requirement.target (r : Requirement) : Wakeup.Target := ⟨r.metadata.namespaceName, r.name⟩

namespace Registry

variable {g : Registry} {namespaceName name : String} {r r' : Requirement} {s : RequirementStatus}

/-! ### What is recorded of requirements -/

/-- A requirement is listed, and its status suits its specification. -/
def Records (g : Registry) (r : Requirement) : Prop :=
  (∃ namespaceName name, g.Lists namespaceName name r) ∧ r.known.Suits r.spec

theorem Lists.congr (h : g.Lists namespaceName name r)
    (hplace : r'.metadata.place = r.metadata.place) (huid : r'.metadata.uid = r.metadata.uid)
    (hspec : r'.spec = r.spec) (htimely : r'.Timely) : g.Lists namespaceName name r' := by
  refine ⟨?_, hspec.trans h.spec, fun uid huid' => h.uid uid (huid ▸ huid'), htimely⟩
  rw [Metadata.isAt_congr hplace]
  exact h.isAt

/-- The requirements listed for a place have one specification. -/
theorem Lists.spec_eq (h : g.Lists namespaceName name r)
    {namespaceName' name' : String} (h' : g.Lists namespaceName' name' r')
    (hat : r'.metadata.isAt namespaceName name = true) : r'.spec = r.spec := by
  have hplace := (Metadata.isAt_iff.1 hat).symm.trans (Metadata.isAt_iff.1 h'.isAt)
  simp only [Prod.mk.injEq, Option.some.injEq] at hplace
  obtain ⟨rfl, rfl⟩ := hplace
  rw [h.spec, h'.spec]

theorem Records.timely (h : g.Records r) : r.Timely := by
  obtain ⟨⟨_, _, hlists⟩, -⟩ := h
  exact hlists.timely

theorem Records.congr (h : g.Records r) (hplace : r'.metadata.place = r.metadata.place)
    (huid : r'.metadata.uid = r.metadata.uid) (hspec : r'.spec = r.spec)
    (hstatus : r'.status = r.status) (htimely : r.Timely → r'.Timely) : g.Records r' := by
  have hr' := htimely h.timely
  obtain ⟨⟨namespaceName, name, hlists⟩, hsuits⟩ := h
  refine ⟨⟨namespaceName, name, hlists.congr hplace huid hspec hr'⟩, ?_⟩
  rwa [Requirement.known_congr hstatus, hspec]

/-- A status that suits may be written over any other one. -/
theorem Records.withStatus (h : g.Records r) (hs : s.Timely) (hsuits : s.Suits r.spec) :
    g.Records (r.withStatus s) := by
  have hr := h.timely
  obtain ⟨⟨namespaceName, name, hlists⟩, -⟩ := h
  refine ⟨⟨namespaceName, name, hlists.congr (Requirement.withStatus_place hr hs)
    (Requirement.withStatus_uid hr hs) (Requirement.withStatus_spec hr hs)
    (Requirement.withStatus_timely hr hs)⟩, ?_⟩
  rw [Requirement.withStatus_known hr hs, Requirement.withStatus_spec hr hs]
  exact hsuits.laidOver _

theorem Lists.records_of_new (h : g.Lists namespaceName name r) (hstatus : r.status = none) :
    g.Records r := by
  refine ⟨⟨namespaceName, name, h⟩, ?_⟩
  rw [Requirement.known_of_new hstatus]
  exact RequirementStatus.suits_initial _

/-! ### What references tell -/

variable {op old new : Operation} {o : OwnerReference} {uid : String}

/-- A reference to the UID of a requirement tells, with its operation, where the requirement is. -/
def Traces (g : Registry) (op : Operation) (o : OwnerReference) : Prop :=
  ∀ namespaceName name, g.place? o.uid = some (namespaceName, name) →
    op.metadata.namespaceName = some namespaceName ∧ o.kind = Kind.requirement.name ∧
      o.apiVersion = apiVersion ∧ o.name = name

/-- A requirement that is told by a reference is woken. -/
theorem Traces.mem_ofOperation (h : g.Traces op o) (ho : o ∈ op.metadata.owners)
    (hplace : g.place? o.uid = some (namespaceName, name)) :
    ⟨some namespaceName, name⟩ ∈ Wakeup.ofOperation op := by
  obtain ⟨hnamespace, hkind, hversion, hname⟩ := h namespaceName name hplace
  have howner : o ∈ op.metadata.ownersOfKind Kind.requirement.name :=
    List.mem_filter.2 ⟨ho, decide_eq_true hkind⟩
  refine List.mem_map.2 ⟨o, List.mem_filter.2 ⟨howner, decide_eq_true hversion⟩, ?_⟩
  rw [hnamespace, hname]

theorem Traces.congr (h : g.Traces old o) (hplace : old.metadata.place = new.metadata.place) :
    g.Traces new o := by
  intro namespaceName name ho
  obtain ⟨hnamespace, htold⟩ := h namespaceName name ho
  exact ⟨(congrArg Prod.fst hplace).symm.trans hnamespace, htold⟩

theorem traces_of_unlisted (h : g.place? o.uid = none) (op : Operation) : g.Traces op o := by
  intro namespaceName name ho
  rw [h] at ho
  cases ho

/-- The references that a requirement gives to operations of its namespace tell where it is. -/
theorem Lists.traces (h : g.Lists namespaceName name r) (huid : r.metadata.uid = some uid)
    (hop : op.metadata.namespaceName = some namespaceName) (controller : Bool) :
    g.Traces op (holderReference r uid controller) := by
  intro namespaceName' name' hplace
  have hsame := (h.uid uid huid).symm.trans hplace
  simp only [Option.some.injEq, Prod.mk.injEq] at hsame
  obtain ⟨rfl, rfl⟩ := hsame
  exact ⟨hop, rfl, rfl, Metadata.anyName_of_isAt h.isAt⟩

/-! ### States -/

/-- What holds of every state: requirements are recorded, and references tell where they are. -/
structure Holds (g : Registry) (c : Cluster) : Prop where
  records : ∀ r ∈ c.requirements, g.Records r
  traces : ∀ op ∈ c.operations, ∀ o ∈ op.metadata.owners, g.Traces op o

variable {c c' view : Cluster} {q : Requirement} {w w' : World} {t : Task}

theorem Opens.holds (h : g.Opens c) : g.Holds c := by
  refine ⟨fun r hr => ?_, fun op hop o ho => traces_of_unlisted (h.unreferenced op hop o ho) op⟩
  obtain ⟨namespaceName, name, hlists⟩ := h.lists r hr
  exact hlists.records_of_new (h.status r hr)

/-- The calls of a reconcile leave requirements recorded, however old what it started from. -/
theorem Holds.records_serve (h : g.Holds c) (hq : g.Lists namespaceName name q)
    (hsuits : q.known.Suits q.spec) {occasion : Occasion} (hnow : occasion.now.Valid)
    {past : List Answered} {call : Call} (hmove : Move occasion q past call) :
    ∀ r ∈ (Cluster.serve namespaceName view c call).2.requirements, g.Records r := by
  intro r' hr'
  cases call with
  | patchStatus name' s =>
    obtain ⟨rfl, hwrites, -, htimely⟩ := hmove.patchStatus_cases
    change r' ∈ (c.patchStatus namespaceName q.name s).2.requirements at hr'
    unfold Cluster.patchStatus at hr'
    split at hr'
    · obtain ⟨r, hr, rfl⟩ := mem_updateWhere.1 hr'
      split
      · rename_i hat
        -- The requirement stored may be another one, but it has the same specification.
        obtain ⟨⟨_, _, hlists⟩, -⟩ := h.records r hr
        have hname : q.name = name := Metadata.anyName_of_isAt hq.isAt
        have hspec : r.spec = q.spec := hq.spec_eq hlists (hname ▸ hat)
        exact (h.records r hr).withStatus (htimely hq.timely.2 hnow)
          (hspec ▸ hwrites.suits hsuits)
      · exact h.records r hr
    · exact h.records r' hr'
  | addFinalizer name' finalizer =>
    change r' ∈ (c.addFinalizer namespaceName name' finalizer).2.requirements at hr'
    rw [Cluster.addFinalizer_eq] at hr'
    split at hr'
    · obtain ⟨r, hr, rfl⟩ := mem_updateWhere.1 hr'
      have htouches := r.touches_takeFinalizer finalizer
      split
      · exact (h.records r hr).congr htouches.place htouches.uid htouches.spec htouches.status
          htouches.timely
      · exact h.records r hr
    · exact h.records r' hr'
  | removeFinalizer name' finalizer =>
    change r' ∈ (c.removeFinalizer namespaceName name' finalizer).requirements at hr'
    unfold Cluster.removeFinalizer at hr'
    split at hr'
    · exact h.records r' hr'
    · split at hr'
      · exact h.records r' hr'
      · split at hr'
        · exact h.records r' (List.mem_filter.1 hr').1
        · obtain ⟨r, hr, rfl⟩ := mem_updateWhere.1 hr'
          split
          · exact (h.records r hr).congr rfl rfl rfl rfl id
          · exact h.records r hr
  | _ =>
    rw [Cluster.requirements_serve rfl] at hr'
    exact h.records r' hr'

/-- What others write leaves requirements recorded and references telling. -/
theorem Holds.others (h : g.Holds c) (hothers : Others g.watched.license c c') : g.Holds c' := by
  refine ⟨fun r' hr' => ?_, fun op hop o ho => ?_⟩
  · cases hothers with
    | requirements hl =>
      obtain ⟨namespaceName, name, hlists, hstatus | ⟨r, hr, hat, hstatus⟩⟩ := hl r' hr'
      · exact hlists.records_of_new hstatus
      · obtain ⟨⟨_, _, hlists'⟩, hsuits⟩ := h.records r hr
        refine ⟨⟨namespaceName, name, hlists⟩, ?_⟩
        rwa [Requirement.known_congr hstatus, ← hlists.spec_eq hlists' hat]
    | caches _ => exact h.records r' hr'
    | write _ _ _ => exact h.records r' hr'
    | make _ _ _ => exact h.records r' hr'
    | remove _ _ => exact h.records r' hr'
    | version _ => exact h.records r' hr'
  · cases hplace : g.place? o.uid with
    | none => exact traces_of_unlisted hplace op
    | some place =>
      have hlisted : (g.place? o.uid).isSome := hplace ▸ rfl
      rcases (Cluster.others_changes hothers).mem_cases hop with
        hop | ⟨-, ⟨old, hold, hsame, new, version, hwrite, rfl⟩ | ⟨new, version, hmake, rfl⟩⟩
      · exact h.traces op hop o ho
      · exact (h.traces old hold o (hwrite o ho hlisted)).congr hsame
      · exact absurd (hmake o ho) (by simp [hplace])

end Registry

/-- An operation that a call leaves stored was there, or is of the namespace of its requirement. -/
theorem World.Consistent.namespaceName_of_call {w : World} (h : w.Consistent) {t : Task}
    (ht : t ∈ w.tasks) {call : Call} {next : Except Error call.Reply → Plan Action}
    (hrest : t.rest = .call t.namespaceName call next) {view : Cluster} {fate : Fate}
    (hroom : (∀ e, fate ≠ .lost e) → w.cluster.HasRoom t.namespaceName call) {op : Operation}
    (hop : op ∈ (w.cluster.deliver t.namespaceName view call fate).2.operations) :
    op ∈ w.cluster.operations ∨ op.metadata.namespaceName = some t.namespaceName := by
  have hcreated (op : Operation) (hcall : call = .createOperation op) :
      op.metadata.namespaceName = some t.namespaceName := (h.createOperation ht hrest hcall).1
  rcases w.cluster.deliver_cases t.namespaceName view call fate with hsame | ⟨hfate, hserved⟩
  · rw [hsame] at hop
    exact .inl hop
  · rw [hserved] at hop
    rcases (Cluster.serve_changes h.orderly (hroom hfate) hcreated).mem_cases hop with
      hop | ⟨-, ⟨old, -, hplace, hexchange⟩ | ⟨asked, rfl, -⟩⟩
    · exact .inl hop
    · obtain ⟨_, _, _, _, -, hat, -⟩ := hexchange
      exact .inr ((congrArg Prod.fst hplace).symm.trans (Metadata.namespaceName_of_isAt hat))
    · rcases List.mem_append.1 hop with hop | hop
      · exact .inl hop
      · rw [List.mem_singleton.1 hop]
        exact .inr (hcreated asked rfl)

namespace Registry

variable {g : Registry} {w w' : World} {t : Task}

/-! ### Runs -/

/-- What holds of every world: of all its states, and of the requirements under reconcile. -/
structure Covers (g : Registry) (w : World) : Prop where
  consistent : w.Consistent
  holds : ∀ c ∈ w.states, g.Holds c
  tasks : ∀ t ∈ w.tasks, g.Records t.requirement ∧ t.occasion.now.Valid

theorem Opens.covers {c : Cluster} (h : g.Opens c) : g.Covers { cluster := c } := by
  refine ⟨World.consistent_of_orderly h.orderly, fun c' hc' => ?_, fun _ ht => (nomatch ht)⟩
  rw [List.mem_singleton.1 hc']
  exact h.holds

theorem Covers.present (h : g.Covers w) : g.Holds w.cluster := h.holds _ List.mem_cons_self

/-- The call of a reconcile leads from one such state to another. -/
theorem Covers.holds_deliver (h : g.Covers w) (ht : t ∈ w.tasks) {call : Call}
    {next : Except Error call.Reply → Plan Action}
    (hrest : t.rest = .call t.namespaceName call next) (view : Cluster) (fate : Fate)
    (hroom : (∀ e, fate ≠ .lost e) → w.cluster.HasRoom t.namespaceName call) :
    g.Holds (w.cluster.deliver t.namespaceName view call fate).2 := by
  obtain ⟨⟨⟨namespaceName, name, hlists⟩, hsuits⟩, hnow⟩ := h.tasks t ht
  have hnamespace : t.namespaceName = namespaceName := Task.namespaceName_eq hlists.isAt
  refine ⟨?_, fun op hop o ho => ?_⟩
  · rcases w.cluster.deliver_cases t.namespaceName view call fate with hsame | ⟨-, hserved⟩
    · rw [hsame]
      exact h.present.records
    · rw [hserved, hnamespace]
      exact h.present.records_serve hlists hsuits hnow (h.consistent.move ht hrest)
  · rcases h.consistent.namespaceName_of_call ht hrest hroom hop with hstored | hplace
    · exact h.present.traces op hstored o ho
    · rcases h.consistent.reference_cases ht hrest hroom op hop o ho with
        ⟨old, hold, hsame, ho⟩ | ⟨uid, controller, huid, rfl⟩
      · exact (h.present.traces old hold o ho).congr hsame
      · exact hlists.traces huid (hplace.trans (congrArg some hnamespace)) controller

/-- A reconcile goes on, still of its requirement and on its occasion. -/
theorem Covers.advance (h : g.Covers w) {before after : List Task} {t' : Task}
    (htasks : w.tasks = before ++ t :: after) (hconsistent : w'.Consistent)
    (hholds : ∀ c ∈ w'.states, g.Holds c) (htasks' : w'.tasks = before ++ t' :: after)
    (hrequirement : t'.requirement = t.requirement) (hoccasion : t'.occasion = t.occasion) :
    g.Covers w' := by
  refine ⟨hconsistent, hholds, fun u hu => ?_⟩
  rcases World.mem_tasks_of_ne htasks (htasks' ▸ hu) with rfl | hu
  · rw [hrequirement, hoccasion]
    exact h.tasks t (World.mem_tasks htasks)
  · exact h.tasks u hu

theorem Covers.step (h : g.Covers w) (hstep : Step g.watched w w') : g.Covers w' := by
  have hconsistent := h.consistent.step g.watched_faithful hstep
  cases hstep with
  | start settings hstart =>
    obtain ⟨hnow, c, hc, hr⟩ := hstart
    refine ⟨hconsistent, h.holds, fun t ht => ?_⟩
    rcases List.mem_cons.1 ht with rfl | ht
    · exact ⟨(h.holds c hc).records _ hr, hnow⟩
    · exact h.tasks t ht
  | event htasks _ => exact h.advance htasks hconsistent h.holds rfl rfl rfl
  | measure htasks _ => exact h.advance htasks hconsistent h.holds rfl rfl rfl
  | call fate htasks hrest _ hroom =>
    obtain rfl := Task.namespaceName_of_call hrest
    refine h.advance htasks hconsistent (fun c hc => ?_) rfl rfl rfl
    rcases List.mem_cons.1 hc with rfl | hc
    · exact h.holds_deliver (World.mem_tasks htasks) hrest _ fate hroom
    · exact h.holds c hc
  | stop htasks =>
    exact ⟨hconsistent, h.holds, fun t ht => h.tasks t ((World.sublist_tasks htasks).subset ht)⟩
  | others hothers =>
    refine ⟨hconsistent, fun c hc => ?_, h.tasks⟩
    rcases List.mem_cons.1 hc with rfl | hc
    · exact h.present.others hothers
    · exact h.holds c hc

theorem Covers.reachable (h : g.Covers w) (hrun : Reachable g.watched w w') : g.Covers w' :=
  hrun.induction_of h fun _ _ hw hstep => hw.step hstep

/-! ### Who waits for a cache -/

variable {r : Requirement} {cache : Cache} {key : String}

/-- A requirement that searches a pool looks for the cache of the key that is stored. -/
theorem Records.soughtCache_of_cacheChecking (h : g.Records r)
    (hphase : r.known.phase = .cacheChecking) :
    ∃ key, r.known.key = some key ∧ soughtCache r = Cache.nameForKey key := by
  obtain ⟨-, hsuits⟩ := h
  have hcaching : r.spec.enableCache = true := by
    by_contra hplain
    exact hsuits.plain (by simpa using hplain) hphase
  obtain ⟨key, hkey⟩ := Option.isSome_iff_exists.1 (hsuits.key hcaching (.inl hphase))
  refine ⟨key, hkey, ?_⟩
  unfold soughtCache soughtKey
  rw [hkey]
  rfl

/-- Those woken by a cache with the key in its name are those that wait for it. -/
theorem Records.waitsFor_iff (h : g.Records r) (hname : Cache.keyInName? cache.name = some key) :
    Wakeup.waitsFor cache.metadata.namespaceName key r = true ↔ r.Awaits cache := by
  have hkey : r.status.bind (·.key) = r.known.key := by
    unfold Requirement.known
    cases r.status with
    | none => rfl
    | some s => rfl
  unfold Wakeup.waitsFor Requirement.Awaits
  rw [r.phase_eq, hkey, Bool.and_eq_true, Bool.and_eq_true, decide_eq_true_iff, decide_eq_true_iff,
    decide_eq_true_iff]
  constructor
  · rintro ⟨⟨hnamespace, hsearches⟩, hstored⟩
    obtain ⟨key', hkey', hsought⟩ := h.soughtCache_of_cacheChecking hsearches
    obtain rfl : key' = key := Option.some.inj (hkey'.symm.trans hstored)
    exact ⟨hsearches, hnamespace, hsought.trans (Cache.nameForKey_of_keyInName? hname)⟩
  · rintro ⟨hsearches, hnamespace, hsame⟩
    obtain ⟨key', hkey', hsought⟩ := h.soughtCache_of_cacheChecking hsearches
    refine ⟨⟨hnamespace, hsearches⟩, hkey'.trans ?_⟩
    rw [← hname, ← hsame, hsought, Cache.keyInName?_nameForKey]

theorem Records.target?_eq (h : g.Records r) : Wakeup.target? r = some r.target := by
  obtain ⟨⟨namespaceName, name, hlists⟩, -⟩ := h
  unfold Wakeup.target? Requirement.target Requirement.name
  rw [Metadata.name_of_isAt hlists.isAt, Metadata.anyName_of_isAt hlists.isAt]
  rfl

/-- Requirements that are recorded can all be told. -/
theorem mapM_target? {l : List Requirement} (h : ∀ r ∈ l, g.Records r) :
    l.mapM Wakeup.target? = some (l.map (·.target)) := by
  have hmap : (l.map id).mapM Wakeup.target? = some (l.map (·.target)) :=
    Json.mapM_map_eq_some fun r hr => (h r hr).target?_eq
  rwa [List.map_id] at hmap

/-- A cache wakes those that wait for it, in the order given. -/
theorem ofCache?_eq {l : List Requirement} (h : ∀ r ∈ l, g.Records r)
    (hcache : ∀ key, cache.status.bind (·.key) = some key →
      Cache.keyInName? cache.name = some key) :
    Wakeup.ofCache? cache l = some ((l.filter fun r => r.Awaits cache).map (·.target)) := by
  have hkey : Wakeup.cacheKey? cache = Cache.keyInName? cache.name := by
    unfold Wakeup.cacheKey?
    cases hstatus : cache.status.bind (·.key) with
    | none => rfl
    | some key => exact (hcache key hstatus).symm
  unfold Wakeup.ofCache?
  rw [hkey]
  cases hname : Cache.keyInName? cache.name with
  | none =>
    have hnone : l.filter (fun r => r.Awaits cache) = [] :=
      List.filter_eq_nil_iff.2 fun r _ => by simpa using Requirement.not_awaits hname
    rw [hnone]
    rfl
  | some key =>
    have hsame : l.filter (Wakeup.waitsFor cache.metadata.namespaceName key) =
        l.filter fun r => r.Awaits cache :=
      List.filter_congr fun r hr => by
        rw [Bool.eq_iff_iff, (h r hr).waitsFor_iff hname, decide_eq_true_iff]
    simp only [hsame]
    exact mapM_target? fun r hr => h r (List.mem_filter.1 hr).1

end Registry

/-! ### The whole run -/

/--
Whatever fails, is cut off or overlaps, and however old the versions are that reconciles start from
and read: an operation that is or was stored wakes each requirement that it refers to, and a cache
whose status does not contradict its name wakes exactly those requirements, of any list of present
and former ones and in its order, that search in its namespace for the cache of this name. It is the
cache that a reconcile looks for then, and it looks for no other.
-/
theorem complete_wakeups {g : Registry} {c : Cluster} (hc : g.Opens c) {w : World}
    (h : Reachable g.watched { cluster := c } w) :
    (∀ c₁ ∈ w.states, ∀ r ∈ c₁.requirements, ∀ c₂ ∈ w.states, ∀ op ∈ c₂.operations,
      (∃ o ∈ op.metadata.owners, r.metadata.uid = some o.uid) →
        r.target ∈ Wakeup.ofOperation op) ∧
    (∀ cache : Cache,
      (∀ key, cache.status.bind (·.key) = some key → Cache.keyInName? cache.name = some key) →
      ∀ l : List Requirement, (∀ r ∈ l, ∃ c' ∈ w.states, r ∈ c'.requirements) →
        Wakeup.ofCache? cache l = some ((l.filter fun r => r.Awaits cache).map (·.target))) ∧
    ∀ t ∈ w.tasks, ∀ n name next, t.rest = .call n (.getCache name) next →
      n = t.requirement.namespaceName ∧ AdvancesFrom t.requirement .cacheChecking ∧
        name = soughtCache t.requirement := by
  have hcovers := hc.covers.reachable h
  refine ⟨?_, fun cache hcache l hl => ?_, fun t ht n name next hrest => ?_⟩
  · rintro c₁ hc₁ r hr c₂ hc₂ op hop ⟨o, ho, huid⟩
    obtain ⟨⟨namespaceName, name, hlists⟩, -⟩ := (hcovers.holds c₁ hc₁).records r hr
    have htold := ((hcovers.holds c₂ hc₂).traces op hop o ho).mem_ofOperation ho
      (hlists.uid o.uid huid)
    unfold Requirement.target Requirement.name
    rwa [Metadata.namespaceName_of_isAt hlists.isAt, Metadata.anyName_of_isAt hlists.isAt]
  · have hrecords (r : Requirement) (hr : r ∈ l) : g.Records r := by
      obtain ⟨c', hc', hr'⟩ := hl r hr
      exact (hcovers.holds c' hc').records r hr'
    exact Registry.ofCache?_eq hrecords hcache
  · obtain rfl := Task.namespaceName_of_call hrest
    exact ⟨rfl, (hcovers.consistent.move ht hrest).getCache_cases⟩

/-- The registry of the sample alone. -/
def sampleRegistry : Registry where
  place? uid := if uid = "sample" then some ("dev", "sample") else none
  spec _ _ := sampleRequirement.spec

theorem sampleRegistry_opens : sampleRegistry.Opens sampleCluster := by
  have hone {r : Requirement} (hr : r ∈ sampleCluster.requirements) : r = sampleRequirement :=
    List.mem_singleton.1 hr
  refine ⟨sampleCluster_fresh.orderly, fun r hr => ?_, sampleCluster_fresh.status,
    fun op hop o ho => ?_⟩
  · rw [hone hr]
    refine ⟨"dev", "sample", rfl, rfl, fun uid huid => ?_, sampleRequirement_timely⟩
    rw [← Option.some.inj huid]
    rfl
  · rw [List.mem_singleton.1 hop] at ho
    rw [List.mem_singleton.1 ho]
    rfl

/-- The sample, which holds an operation and still searches, is woken by it and by its cache. -/
theorem complete_wakeups_sample :
    ∃ w, Reachable sampleRegistry.watched { cluster := sampleCluster } w ∧
      ∃ r ∈ w.cluster.requirements, r.target = ⟨some "dev", "sample"⟩ ∧
        (∃ op ∈ w.cluster.operations, r.target ∈ Wakeup.ofOperation op) ∧
        Wakeup.ofCache? (warmCache "dev" sampleKey) [r] = some [r.target] := by
  have hview (w : World) : sampleRegistry.watched.views w w.cluster := List.mem_cons_self
  obtain ⟨c, former, r, hreach, hstored, hadvances, huid, hcache, op, hop, hmem⟩ :=
    Leads.sampleHolds hview fun hstored _ =>
      ⟨by decide, _, List.mem_cons_self, (Cluster.mem_of_requirement? hstored).1⟩
  obtain ⟨hr, hat⟩ := Cluster.mem_of_requirement? hstored
  obtain ⟨hoperations, hcaches, -⟩ := complete_wakeups sampleRegistry_opens hreach
  have htarget : r.target = ⟨some "dev", "sample"⟩ := by
    unfold Requirement.target Requirement.name
    rw [Metadata.namespaceName_of_isAt hat, Metadata.anyName_of_isAt hat]
  have hfound : (warmCache "dev" sampleKey).metadata.isAt "dev" (soughtCache r) = true := by
    unfold Cluster.cache? at hcache
    have hnamed := List.find?_some hcache
    exact hnamed
  have hawaits : r.Awaits (warmCache "dev" sampleKey) :=
    ⟨r.phase_eq.trans hadvances.2.2, Metadata.namespaceName_of_isAt hat,
      (Metadata.anyName_of_isAt hfound).symm⟩
  have hwoken := hcaches (warmCache "dev" sampleKey)
    (fun key hkey => by
      rw [← Option.some.inj hkey]
      exact Cache.keyInName?_nameForKey sampleKey)
    [r] fun r' hr' => ⟨c, List.mem_cons_self, List.mem_singleton.1 hr' ▸ hr⟩
  refine ⟨_, hreach, r, hr, htarget, ⟨op, hop, ?_⟩, ?_⟩
  · exact hoperations c List.mem_cons_self r hr c List.mem_cons_self op hop ⟨_, hmem, huid⟩
  · rw [hwoken]
    simp [hawaits]

end WarmPool
