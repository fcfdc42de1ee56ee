import Mathlib.Data.List.Nodup
import Mathlib.Data.Prod.Lex
import WarmPool.Proofs.Text
import WarmPool.Requirement

/-!
# Which specifications are valid, and what is blamed on the others

A specification is valid if its template is (`Template.Valid`) and a duration that it gives for its
cache is one (`RequirementSpec.Valid`). A template can have many faults at once (`Template.Wrong`):
an application has its own faults and those against the applications before it. They are ranked by
application and then by kind (`Template.Fault.rank`), and validation finds the first of them
(`Template.fault?_findsFirst`), so it passes exactly the valid specifications and blames the others
for their first fault, for the duration only if the template has none
(`RequirementSpec.validate_blames`).
-/

namespace WarmPool

/-! ### The first fault -/

section FindingFirst

variable {α β : Type} {rank : α → β} {P : α → Prop} {f g : α} {o : Option α}

/-- One of the faults that there are, none of which ranks before it. -/
structure IsFirst [LE β] (rank : α → β) (P : α → Prop) (f : α) : Prop where
  holds : P f
  le : ∀ g, P g → rank f ≤ rank g

/-- The outcome of a search for the first fault. -/
def FindsFirst [LE β] (rank : α → β) (P : α → Prop) : Option α → Prop
  | none => ∀ f, ¬P f
  | some f => IsFirst rank P f

/-- There is one first fault if no two of the faults have the same rank. -/
theorem IsFirst.unique [PartialOrder β] (hrank : ∀ f g, P f → P g → rank f = rank g → f = g)
    (hf : IsFirst rank P f) (hg : IsFirst rank P g) : f = g :=
  hrank f g hf.holds hg.holds (le_antisymm (hf.le g hg.holds) (hg.le f hf.holds))

/-- A check for one fault, with a search for the others behind it. -/
theorem FindsFirst.check [LE β] {p : Prop} [Decidable p] (hp : p ↔ P f)
    (hle : ∀ g, P g → rank f ≤ rank g) (hrest : ¬P f → FindsFirst rank P o) :
    FindsFirst rank P (if p then some f else o) := by
  by_cases h : p
  · rw [if_pos h]
    exact ⟨hp.1 h, hle⟩
  · rw [if_neg h]
    exact hrest fun hf => h (hp.2 hf)

theorem FindsFirst.eq_none_iff [LE β] (h : FindsFirst rank P o) : o = none ↔ ∀ f, ¬P f := by
  cases o with
  | none => exact ⟨fun _ => h, fun _ => rfl⟩
  | some f =>
    constructor
    · intro hnone
      cases hnone
    · intro hnone
      exact absurd h.holds (hnone f)

theorem FindsFirst.eq_some_iff [PartialOrder β]
    (hrank : ∀ f g, P f → P g → rank f = rank g → f = g) (h : FindsFirst rank P o) :
    o = some f ↔ IsFirst rank P f := by
  cases o with
  | none =>
    constructor
    · intro hsome
      cases hsome
    · intro hfirst
      exact absurd hfirst.holds (h f)
  | some g =>
    constructor
    · intro hsome
      exact Option.some.inj hsome ▸ h
    · intro hfirst
      exact congrArg some (IsFirst.unique hrank h hfirst)

end FindingFirst

/-! ### Names -/

namespace Label

/-- A label, counted in characters. -/
structure Proper (name : String) : Prop where
  length_pos : 1 ≤ name.length
  length_le : name.length ≤ 63
  chars : ∀ c ∈ name.toList, ('a' ≤ c ∧ c ≤ 'z') ∨ ('0' ≤ c ∧ c ≤ '9') ∨ c = '-'
  head : name.toList.head? ≠ some '-'
  last : name.toList.getLast? ≠ some '-'

/-- Whether a name has a fault; it may have more than one. The length is that in bytes. -/
def Wrong (name : String) : Fault → Prop
  | .empty => name.toList = []
  | .tooLong => 63 < name.utf8ByteSize
  | .badCharacter => ∃ c ∈ name.toList, isLabelChar c = false
  | .hyphenAtEnd => name.toList.head? = some '-' ∨ name.toList.getLast? = some '-'

/-- The order in which the faults count. -/
def Fault.rank : Fault → Nat
  | empty => 0
  | tooLong => 1
  | badCharacter => 2
  | hyphenAtEnd => 3

variable {name : String}

theorem isLabelChar_iff {c : Char} : isLabelChar c = true ↔
    ('a' ≤ c ∧ c ≤ 'z') ∨ ('0' ≤ c ∧ c ≤ '9') ∨ c = '-' := by
  unfold isLabelChar
  rw [Bool.or_eq_true, Bool.or_eq_true, decide_eq_true_iff, or_assoc, Text.isLower_iff,
    Text.isDigit_iff]

theorem utf8Size_of_isLabelChar {c : Char} (h : isLabelChar c = true) : c.utf8Size = 1 := by
  unfold isLabelChar at h
  rw [Bool.or_eq_true, Bool.or_eq_true, decide_eq_true_iff] at h
  rcases h with (h | h) | rfl
  · exact Text.utf8Size_of_isLower h
  · exact Text.utf8Size_of_isDigit h
  · rfl

/-- A name of such characters is as long in bytes as in characters. -/
theorem utf8ByteSize_eq_length (h : ∀ c ∈ name.toList, isLabelChar c = true) :
    name.utf8ByteSize = name.length := by
  have hsize := Text.utf8ByteSize_of_ascii fun c hc => utf8Size_of_isLabelChar (h c hc)
  rwa [String.ofList_toList, String.length_toList] at hsize

/-- It makes no difference to a label whether its length is that in bytes or in characters. -/
theorem isLabel_iff_proper : IsLabel name ↔ Proper name := by
  constructor
  · rintro ⟨hne, hle, hchars, hhead, hlast⟩
    refine ⟨?_, ?_, fun c hc => isLabelChar_iff.1 (hchars c hc), hhead, hlast⟩
    · rw [← String.length_toList]
      exact List.length_pos_of_ne_nil (mt String.toList_eq_nil_iff.1 hne)
    · rw [← utf8ByteSize_eq_length hchars]
      exact hle
  · intro h
    have hchars : ∀ c ∈ name.toList, isLabelChar c = true := fun c hc =>
      isLabelChar_iff.2 (h.chars c hc)
    refine ⟨?_, ?_, hchars, h.head, h.last⟩
    · rintro rfl
      exact absurd h.length_pos (by decide)
    · rw [utf8ByteSize_eq_length hchars]
      exact h.length_le

theorem isLabel_iff : IsLabel name ↔ ∀ f, ¬Wrong name f := by
  constructor
  · rintro ⟨hne, hle, hchars, hhead, hlast⟩ f hf
    cases f with
    | empty => exact hne (String.toList_eq_nil_iff.1 hf)
    | tooLong => exact absurd hle (Nat.not_le_of_lt hf)
    | badCharacter =>
      obtain ⟨c, hc, hbad⟩ := hf
      exact Bool.false_ne_true (hbad.symm.trans (hchars c hc))
    | hyphenAtEnd => exact hf.elim hhead hlast
  · intro h
    refine ⟨fun hempty => h .empty (String.toList_eq_nil_iff.2 hempty),
      Nat.le_of_not_lt (h .tooLong), fun c hc => ?_, fun hhead => h .hyphenAtEnd (.inl hhead),
      fun hlast => h .hyphenAtEnd (.inr hlast)⟩
    exact Bool.of_not_eq_false fun hbad => h .badCharacter ⟨c, hc, hbad⟩

theorem proper_iff : Proper name ↔ ∀ f, ¬Wrong name f :=
  isLabel_iff_proper.symm.trans isLabel_iff

theorem fault?_findsFirst (name : String) : FindsFirst Fault.rank (Wrong name) (fault? name) := by
  have hbad : (!name.toList.all isLabelChar) = true ↔ Wrong name .badCharacter := by
    simp [Wrong]
  have hend : (name.toList.head? = some '-' || name.toList.getLast? = some '-') = true ↔
      Wrong name .hyphenAtEnd := by
    simp [Wrong]
  unfold fault?
  refine .check List.isEmpty_iff (fun g _ => Nat.zero_le _) fun hempty => ?_
  refine .check Iff.rfl (fun g hg => ?_) fun hlong => ?_
  · cases g with
    | empty => exact absurd hg hempty
    | _ => simp [Fault.rank]
  refine .check hbad (fun g hg => ?_) fun hbad => ?_
  · cases g with
    | empty => exact absurd hg hempty
    | tooLong => exact absurd hg hlong
    | _ => simp [Fault.rank]
  refine .check hend (fun g hg => ?_) fun hend g => ?_
  · cases g with
    | empty => exact absurd hg hempty
    | tooLong => exact absurd hg hlong
    | badCharacter => exact absurd hg hbad
    | hyphenAtEnd => exact Nat.le_refl _
  · cases g with
    | empty => exact hempty
    | tooLong => exact hlong
    | badCharacter => exact hbad
    | hyphenAtEnd => exact hend

end Label

/-! ### Applications -/

/-- Whether the image of a job is missing or blank. -/
def JobTemplate.Blank (j : JobTemplate) : Prop := ∀ c ∈ j.image.toList, Text.isBlank c = true

theorem JobTemplate.not_hasImage_iff {j : JobTemplate} : (!j.hasImage) = true ↔ j.Blank := by
  unfold hasImage Blank
  rw [Bool.not_not, List.isEmpty_iff, Text.trimChars_eq_nil_iff]

namespace Template

/-- Whether an application that comes after others has a fault. -/
def ApplicationWrong (before : List Application) (a : Application) : ApplicationFault → Prop
  | .name fault => Label.Wrong a.name fault
  | .duplicateName => ∃ b ∈ before, b.name = a.name
  | .provisionImage => a.provision.Blank
  | .teardownImage => ∃ job, a.teardown = some job ∧ job.Blank

/-- The order in which the faults of an application count. -/
def ApplicationFault.rank : ApplicationFault → Nat
  | name fault => fault.rank
  | duplicateName => 4
  | provisionImage => 5
  | teardownImage => 6

/-- The field of an application that a fault is about. -/
def ApplicationFault.part : ApplicationFault → String
  | name _ => ".name"
  | duplicateName => ".name"
  | provisionImage => ".provision.image"
  | teardownImage => ".teardown.image"

theorem ApplicationFault.rank_name_le (fault : Label.Fault) {g : ApplicationFault}
    (h : ∀ other, g ≠ .name other) : (name fault).rank ≤ g.rank := by
  have hfault : fault.rank ≤ 3 := by cases fault <;> decide
  cases g with
  | name other => exact absurd rfl (h other)
  | duplicateName => exact hfault.trans (by decide)
  | provisionImage => exact hfault.trans (by decide)
  | teardownImage => exact hfault.trans (by decide)

theorem ApplicationFault.rank_injective : Function.Injective ApplicationFault.rank := by
  intro f g h
  cases f with
  | name f =>
    cases g with
    | name g => cases f <;> cases g <;> first | rfl | cases h
    | _ => cases f <;> cases h
  | _ =>
    cases g with
    | name g => cases g <;> cases h
    | _ => first | rfl | cases h

variable {before : List Application} {a : Application} {seen : List String}

/-- The last of the checks. -/
theorem teardownFault?_findsFirst (hclean : ∀ g, ApplicationWrong before a g → g = .teardownImage) :
    FindsFirst ApplicationFault.rank (ApplicationWrong before a)
      (match a.teardown with
      | some job => if job.hasImage then none else some .teardownImage
      | none => none) := by
  have hnone (h : ¬ApplicationWrong before a .teardownImage) :
      FindsFirst ApplicationFault.rank (ApplicationWrong before a) none :=
    fun g hg => h (hclean g hg ▸ hg)
  cases hjob : a.teardown with
  | none =>
    refine hnone ?_
    rintro ⟨job, hjob', -⟩
    rw [hjob] at hjob'
    cases hjob'
  | some job =>
    have hblank : ApplicationWrong before a .teardownImage ↔ job.Blank := by
      simp [ApplicationWrong, hjob]
    have himage := JobTemplate.not_hasImage_iff (j := job)
    rw [← hblank] at himage
    dsimp only
    cases h : job.hasImage with
    | true =>
      rw [h] at himage
      exact hnone fun hwrong => Bool.false_ne_true (himage.2 hwrong)
    | false =>
      rw [h] at himage
      exact ⟨himage.1 rfl, fun g hg => hclean g hg ▸ Nat.le_refl _⟩

theorem applicationFault?_findsFirst (hseen : ∀ n, n ∈ seen ↔ ∃ b ∈ before, b.name = n) :
    FindsFirst ApplicationFault.rank (ApplicationWrong before a) (applicationFault? seen a) := by
  unfold applicationFault?
  have hname := Label.fault?_findsFirst a.name
  cases hlabel : Label.fault? a.name with
  | some fault =>
    rw [hlabel] at hname
    refine ⟨hname.holds, fun g hg => ?_⟩
    cases g with
    | name other => exact hname.le other hg
    | _ => exact ApplicationFault.rank_name_le fault (by simp)
  | none =>
    rw [hlabel] at hname
    have hused : seen.contains a.name = true ↔ ApplicationWrong before a .duplicateName :=
      List.contains_iff_mem.trans (hseen a.name)
    refine .check hused (fun g hg => ?_) fun hused => ?_
    · cases g with
      | name other => exact absurd hg (hname other)
      | _ => simp [ApplicationFault.rank]
    refine .check JobTemplate.not_hasImage_iff (fun g hg => ?_) fun hprovision => ?_
    · cases g with
      | name other => exact absurd hg (hname other)
      | duplicateName => exact absurd hg hused
      | _ => simp [ApplicationFault.rank]
    refine teardownFault?_findsFirst fun g hg => ?_
    cases g with
    | name other => exact absurd hg (hname other)
    | duplicateName => exact absurd hg hused
    | provisionImage => exact absurd hg hprovision
    | teardownImage => rfl

/-! ### Templates -/

/-- A template whose applications can be provisioned and told apart. -/
structure Valid (t : Template) : Prop where
  nonempty : t.applications ≠ []
  labels : ∀ a ∈ t.applications, Label.Proper a.name
  distinct : (t.applications.map Application.name).Nodup
  provisions : ∀ a ∈ t.applications, ¬a.provision.Blank
  teardowns : ∀ a ∈ t.applications, ∀ job, a.teardown = some job → ¬job.Blank

/-- Whether a template has a fault: no applications, or a fault of the one at an index. -/
def Wrong (t : Template) : Fault → Prop
  | .noApplications => t.applications = []
  | .application index name fault => ∃ a, t.applications[index]? = some a ∧ a.name = name ∧
    ApplicationWrong (t.applications.take index) a fault

/-- The order in which the faults count: by application, and then by kind. -/
def Fault.rank : Fault → ℕ ×ₗ ℕ
  | noApplications => toLex (0, 0)
  | application index _ fault => toLex (index, fault.rank)

variable {t : Template} {rest : List Application} {f g : Fault} {index : Nat}

/-- Where names are distinct, none has been used before. -/
theorem not_duplicateName (h : (t.applications.map Application.name).Nodup)
    (ha : t.applications[index]? = some a) :
    ¬ApplicationWrong (t.applications.take index) a .duplicateName := by
  rintro ⟨b, hb, hname⟩
  obtain ⟨i, hi, rfl⟩ := List.mem_take_iff_getElem.1 hb
  obtain ⟨hindex, rfl⟩ := List.getElem?_eq_some_iff.1 ha
  rw [← List.getElem_map Application.name (h := by simp; omega),
    ← List.getElem_map Application.name (h := by simpa using hindex), h.getElem_inj_iff] at hname
  omega

/-- Where no name has been used before, names are distinct. -/
theorem nodup_names (h : ∀ index a, t.applications[index]? = some a →
    ¬ApplicationWrong (t.applications.take index) a .duplicateName) :
    (t.applications.map Application.name).Nodup := by
  rw [List.nodup_iff_getElem?_ne_getElem?]
  intro i j hij hj hname
  rw [List.length_map] at hj
  have hi := Nat.lt_trans hij hj
  rw [List.getElem?_map, List.getElem?_map, List.getElem?_eq_getElem hj,
    List.getElem?_eq_getElem hi] at hname
  have hmem : t.applications[i] ∈ t.applications.take j :=
    List.mem_take_iff_getElem.2 ⟨i, Nat.lt_min.2 ⟨hij, hi⟩, rfl⟩
  exact h j _ (List.getElem?_eq_getElem hj) ⟨_, hmem, Option.some.inj hname⟩

theorem valid_iff : t.Valid ↔ ∀ f, ¬t.Wrong f := by
  constructor
  · intro h f hf
    cases f with
    | noApplications => exact h.nonempty hf
    | application index name fault =>
      obtain ⟨a, ha, -, hfault⟩ := hf
      have hmem := List.mem_of_getElem? ha
      cases fault with
      | name fault => exact Label.proper_iff.1 (h.labels a hmem) fault hfault
      | duplicateName => exact not_duplicateName h.distinct ha hfault
      | provisionImage => exact h.provisions a hmem hfault
      | teardownImage =>
        obtain ⟨job, hjob, hblank⟩ := hfault
        exact h.teardowns a hmem job hjob hblank
  · intro h
    have hclean : ∀ index a, t.applications[index]? = some a →
        ∀ fault, ¬ApplicationWrong (t.applications.take index) a fault :=
      fun index a ha fault hfault => h (.application index a.name fault) ⟨a, ha, rfl, hfault⟩
    refine ⟨h .noApplications, fun a ha => ?_, nodup_names fun i a ha => hclean i a ha _,
      fun a ha => ?_, fun a ha job hjob hblank => ?_⟩
    · obtain ⟨index, hindex⟩ := List.getElem?_of_mem ha
      exact Label.proper_iff.2 fun fault => hclean index a hindex (.name fault)
    · obtain ⟨index, hindex⟩ := List.getElem?_of_mem ha
      exact hclean index a hindex .provisionImage
    · obtain ⟨index, hindex⟩ := List.getElem?_of_mem ha
      exact hclean index a hindex .teardownImage ⟨job, hjob, hblank⟩

/-- A fault is known by its rank: the name is that of the application at the index. -/
theorem eq_of_rank (hf : t.Wrong f) (hg : t.Wrong g) (h : f.rank = g.rank) : f = g := by
  cases f with
  | noApplications =>
    have hnil : t.applications = [] := hf
    cases g with
    | noApplications => rfl
    | application index name fault => simp [Wrong, hnil] at hg
  | application i name fault =>
    obtain ⟨a, ha, rfl, -⟩ := hf
    cases g with
    | noApplications =>
      have hnil : t.applications = [] := hg
      simp [hnil] at ha
    | application j name' fault' =>
      obtain ⟨b, hb, rfl, -⟩ := hg
      obtain ⟨rfl, hrank⟩ := Prod.mk.inj (toLex.injective h)
      rw [Option.some.inj (ha.symm.trans hb), ApplicationFault.rank_injective hrank]

/-- The scan of the applications behind some that are without faults. -/
theorem applicationsFault?_findsFirst (happlications : t.applications = before ++ rest)
    (hnonempty : t.applications ≠ []) (hseen : ∀ n, n ∈ seen ↔ ∃ b ∈ before, b.name = n)
    (hclean : ∀ index name fault, t.Wrong (.application index name fault) →
      before.length ≤ index) :
    FindsFirst Fault.rank t.Wrong (applicationsFault? before.length seen rest) := by
  induction rest generalizing before seen with
  | nil =>
    intro f hf
    cases f with
    | noApplications => exact hnonempty hf
    | application index name fault =>
      have hle := hclean index name fault hf
      obtain ⟨a, ha, -, -⟩ := hf
      have hlt := (List.getElem?_eq_some_iff.1 ha).1
      rw [happlications, List.append_nil] at hlt
      exact absurd hle (Nat.not_le_of_lt hlt)
  | cons a rest ih =>
    have hat : t.applications[before.length]? = some a := by
      rw [happlications, List.getElem?_append_right (Nat.le_refl _), Nat.sub_self]
      rfl
    have htake : t.applications.take before.length = before := by
      rw [happlications, List.take_left]
    have hwrong (name : String) (fault : ApplicationFault) :
        t.Wrong (.application before.length name fault) ↔
          a.name = name ∧ ApplicationWrong before a fault := by
      simp [Wrong, hat, htake]
    have hstep := applicationFault?_findsFirst (a := a) hseen
    rw [applicationsFault?]
    cases hfault : applicationFault? seen a with
    | some fault =>
      rw [hfault] at hstep
      refine ⟨(hwrong a.name fault).2 ⟨rfl, hstep.holds⟩, fun g hg => ?_⟩
      cases g with
      | noApplications => exact absurd hg hnonempty
      | application index name other =>
        rw [Fault.rank, Fault.rank, Prod.Lex.toLex_le_toLex]
        rcases Nat.lt_or_eq_of_le (hclean index name other hg) with hlater | rfl
        · exact .inl hlater
        · exact .inr ⟨rfl, hstep.le other ((hwrong name other).1 hg).2⟩
    | none =>
      rw [hfault] at hstep
      have hlength : (before ++ [a]).length = before.length + 1 := by simp
      have hlater : ∀ index name fault, t.Wrong (.application index name fault) →
          (before ++ [a]).length ≤ index := by
        intro index name fault h
        rw [hlength]
        refine Nat.lt_of_le_of_ne (hclean index name fault h) ?_
        rintro rfl
        exact hstep fault ((hwrong name fault).1 h).2
      have hseen' : ∀ n, n ∈ a.name :: seen ↔ ∃ b ∈ before ++ [a], b.name = n := by
        intro n
        simp [hseen, or_comm, eq_comm]
      have hrest := ih (by simpa using happlications) hseen' hlater
      rwa [hlength] at hrest

/-- A template without applications has no other fault. -/
theorem isFirst_noApplications_iff :
    IsFirst Fault.rank t.Wrong .noApplications ↔ t.applications = [] := by
  constructor
  · exact IsFirst.holds
  · intro hnil
    refine ⟨hnil, fun g hg => ?_⟩
    cases g with
    | noApplications => exact le_refl _
    | application index name fault => simp [Wrong, hnil] at hg

theorem fault?_findsFirst (t : Template) : FindsFirst Fault.rank t.Wrong t.fault? := by
  unfold fault?
  by_cases hnil : t.applications = []
  · rw [if_pos (List.isEmpty_iff.2 hnil)]
    exact isFirst_noApplications_iff.2 hnil
  · rw [if_neg fun hempty => hnil (List.isEmpty_iff.1 hempty)]
    have hsplit : t.applications = [] ++ t.applications := (List.nil_append _).symm
    exact applicationsFault?_findsFirst hsplit hnil (by simp) fun _ _ _ _ => Nat.zero_le _

theorem validate_eq_ok_iff : t.validate = .ok () ↔ t.Valid := by
  rw [valid_iff, ← (fault?_findsFirst t).eq_none_iff]
  unfold validate
  cases t.fault? with
  | none => simp
  | some fault => simp

theorem validate_eq_error_iff {e : Error} : t.validate = .error e ↔
    ∃ fault, IsFirst Fault.rank t.Wrong fault ∧ e = .invalidField fault.field fault.message := by
  simp only [← (fault?_findsFirst t).eq_some_iff fun _ _ => eq_of_rank]
  unfold validate
  cases t.fault? with
  | none => simp
  | some fault => simp [eq_comm]

end Template

/-! ### Specifications -/

namespace RequirementSpec

/-- A specification with a valid template and a duration where it gives one for its cache. -/
structure Valid (s : RequirementSpec) : Prop where
  template : s.template.Valid
  keepAlive : ∀ text, s.keepAliveDuration? = some text → ∃ d, Duration.parse? text = some d

/-- The error for the first fault of a specification. The duration comes last. -/
inductive Blames (s : RequirementSpec) : Error → Prop where
  | noApplications (h : s.template.applications = []) :
    Blames s (.invalidField "spec.template.applications"
      "template must contain at least one application")
  | application {index : Nat} {name : String} {fault : Template.ApplicationFault}
    (h : IsFirst Template.Fault.rank s.template.Wrong (.application index name fault)) :
    Blames s (.invalidField ("spec.template.applications[" ++ natText index ++ "]" ++ fault.part)
      (Template.Fault.application index name fault).message)
  | keepAlive {text : String} (htemplate : s.template.Valid)
    (htext : s.keepAliveDuration? = some text) (h : Duration.parse? text = none) :
    Blames s (.invalidField "spec.cacheSpec.keepAliveDuration"
      ("invalid duration '" ++ text ++ "'"))

variable {s : RequirementSpec} {e : Error}

theorem application_field {index : Nat} {name : String} {fault : Template.ApplicationFault} :
    (Template.Fault.application index name fault).field =
      "spec.template.applications[" ++ natText index ++ "]" ++ fault.part := by
  cases fault with
  | name fault => rfl
  | duplicateName => rfl
  | provisionImage => rfl
  | teardownImage => rfl

/-- The template is blamed as its own validation has it. -/
theorem blames_iff : s.Blames e ↔ s.template.validate = .error e ∨
    (s.template.validate = .ok () ∧ ∃ text, s.keepAliveDuration? = some text ∧
      Duration.parse? text = none ∧
      e = .invalidField "spec.cacheSpec.keepAliveDuration" (Duration.invalidMessage text)) := by
  rw [Template.validate_eq_ok_iff, Template.validate_eq_error_iff]
  constructor
  · intro h
    cases h with
    | noApplications hnil => exact .inl ⟨_, Template.isFirst_noApplications_iff.2 hnil, rfl⟩
    | application hfirst => exact .inl ⟨_, hfirst, by rw [application_field]⟩
    | keepAlive htemplate htext h => exact .inr ⟨htemplate, _, htext, h, rfl⟩
  · rintro (⟨fault, hfirst, rfl⟩ | ⟨htemplate, text, htext, h, rfl⟩)
    · cases fault with
      | noApplications => exact .noApplications (Template.isFirst_noApplications_iff.1 hfirst)
      | application index name fault =>
        rw [application_field]
        exact .application hfirst
    · exact .keepAlive htemplate htext h

/-- Validation passes the valid specifications, and blames every other one for its first fault. -/
theorem validate_blames (s : RequirementSpec) :
    (s.validate = .ok () ↔ s.Valid) ∧ ∀ e, s.validate = .error e ↔ s.Blames e := by
  have hvalid : s.Valid ↔ s.template.validate = .ok () ∧
      ∀ text, s.keepAliveDuration? = some text → ∃ d, Duration.parse? text = some d :=
    ⟨fun h => ⟨Template.validate_eq_ok_iff.2 h.template, h.keepAlive⟩,
      fun h => ⟨Template.validate_eq_ok_iff.1 h.1, h.2⟩⟩
  simp only [hvalid, blames_iff]
  unfold validate
  cases s.template.validate with
  | error e' => simp [bind, Except.bind]
  | ok u =>
    cases s.keepAliveDuration? with
    | none => simp [bind, Except.bind]
    | some text =>
      cases hparse : Duration.parse? text with
      | none => simp [bind, Except.bind, hparse, eq_comm]
      | some d => simp [bind, Except.bind, hparse]

end RequirementSpec

end WarmPool
