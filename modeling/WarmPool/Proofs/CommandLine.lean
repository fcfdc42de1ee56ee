import WarmPool.CommandLine.Parse

/-!
# What a command line leaves to the operator

A value is read before it is kept. So what was given fits its arguments (`Given.Fits`) after every
word and every variable of the environment, and since the defaults fit too, an operator never starts
without workers or with a default duration that is none (`parse_fits`).
-/

namespace WarmPool

/-- What goes on after a result has that result. -/
theorem exists_of_bind_eq_ok {ε α β : Type} {x : Except ε α} {f : α → Except ε β} {b : β}
    (h : (x >>= f) = .ok b) : ∃ a, x = .ok a ∧ f a = .ok b := by
  cases x with
  | error e => cases h
  | ok a => exact ⟨a, rfl, h⟩

namespace CommandLine

variable {env : Environment} {words : List String} {g g' : Given} {s s' : Progress}
  {command : Option Command} {text : String}

/-- What was given is what its arguments may be, as far as the types leave that open. -/
structure Given.Fits (g : Given) : Prop where
  workers : ∀ n, g.workers = some n → n ≠ 0
  keepAliveDuration : ∀ text, g.keepAliveDuration = some text → (Duration.parse? text).isSome

/-! ### Values -/

theorem workers?_ne_zero {n : UInt16} (h : workers? text = some n) : n ≠ 0 := by
  unfold workers? at h
  obtain ⟨i, -, h⟩ := Option.bind_eq_some_iff.1 h
  split at h
  · next hrange =>
    cases h
    -- In this range nothing is lost by taking sixteen bits.
    have hsize : UInt16.size = 2 ^ 16 := rfl
    have hvalue : (UInt16.ofNat i.toNat).toNat = i.toNat :=
      UInt16.toNat_ofNat_of_lt (by omega)
    intro hzero
    rw [hzero] at hvalue
    have hnone : 0 = i.toNat := hvalue
    omega
  · cases h

theorem Given.Fits.read? (hg : g.Fits) {p : Parameter} (h : g.read? p text = some g') :
    g'.Fits := by
  cases p with
  | workers =>
    obtain ⟨n, hn, rfl⟩ := Option.map_eq_some_iff.1 h
    refine ⟨fun m hm => ?_, hg.keepAliveDuration⟩
    cases hm
    exact workers?_ne_zero hn
  | keepAliveDuration =>
    obtain ⟨t, ht, rfl⟩ := Option.map_eq_some_iff.1 h
    obtain ⟨d, hd, rfl⟩ := Option.map_eq_some_iff.1 ht
    refine ⟨hg.workers, fun t ht => ?_⟩
    cases ht
    rw [hd]
    rfl
  | timeout | keepAliveCount =>
    obtain ⟨n, -, rfl⟩ := Option.map_eq_some_iff.1 h
    exact ⟨hg.workers, hg.keepAliveDuration⟩
  | namespaceName =>
    cases h
    exact ⟨hg.workers, hg.keepAliveDuration⟩

theorem Given.Fits.set (hg : g.Fits) (w : Switch) : (g.set w).Fits := by
  cases w with
  | printDefinitions => exact ⟨hg.workers, hg.keepAliveDuration⟩
  | skipInstall => exact ⟨hg.workers, hg.keepAliveDuration⟩

/-! ### Words -/

namespace Progress

theorem take_fits (hg : g.Fits) {p : Parameter} (h : take g p text = .ok g') : g'.Fits := by
  unfold take at h
  split at h
  · cases h
  · split at h
    · next hread =>
      cases h
      exact hg.read? hread
    · cases h

theorem settle_fits (hs : s.given.Fits) (h : s.settle = .ok g) : g.Fits := by
  unfold settle at h
  split at h
  · cases h
    exact hs
  · cases h
  · exact take_fits hs h

theorem long_fits (hs : s.given.Fits) {name : String} {value : Option String}
    (h : s.long name value = .ok s') : s'.given.Fits := by
  unfold long at h
  split at h
  · cases h
  · obtain ⟨g, hg, h⟩ := exists_of_bind_eq_ok h
    cases h
    exact settle_fits hs hg
  · obtain ⟨g, hg, h⟩ := exists_of_bind_eq_ok h
    obtain ⟨g', hg', h⟩ := exists_of_bind_eq_ok h
    cases h
    exact take_fits (settle_fits hs hg) hg'
  · cases h
  · obtain ⟨g, hg, h⟩ := exists_of_bind_eq_ok h
    split at h
    · cases h
    · cases h
      exact (settle_fits hs hg).set _
  · obtain ⟨g, -, h⟩ := exists_of_bind_eq_ok h
    cases h
  · obtain ⟨g, -, h⟩ := exists_of_bind_eq_ok h
    cases h

end Progress

/-- What was given after all words fits if it did before them. -/
theorem readWords_fits (hs : s.given.Fits) (h : readWords s words = .ok (g, command)) :
    g.Fits := by
  -- Reading ends by settling what is pending, with or without a command.
  have hsettle {s : Progress} {command' : Option Command} (hs : s.given.Fits)
      (h : (do pure (← s.settle, command') : Except Stop _) = .ok (g, command)) : g.Fits := by
    obtain ⟨g', hg', h⟩ := exists_of_bind_eq_ok h
    cases h
    exact Progress.settle_fits hs hg'
  -- By induction on the words, one case for each kind of word at the front.
  induction words generalizing s with
  | nil => exact hsettle hs h
  | cons word rest ih =>
    unfold readWords at h
    split at h
    · split at h
      · exact hsettle hs h
      · cases h
    · obtain ⟨s', hs', h⟩ := exists_of_bind_eq_ok h
      exact ih (Progress.long_fits hs hs') h
    · cases h
    · -- The value of a parameter is kept pending, and nothing is given by that.
      refine ih ?_ h
      exact hs
    · split at h
      · cases h
      · split at h
        · obtain ⟨_, -, h⟩ := exists_of_bind_eq_ok h
          exact hsettle hs h
        · cases h

/-! ### The environment -/

theorem completeParameter_fits (hg : g.Fits) {p : Parameter}
    (h : completeParameter env g p = .ok g') : g'.Fits := by
  unfold completeParameter at h
  split at h
  · cases h
    exact hg
  · split at h
    · cases h
      exact hg
    · split at h
      · next hread =>
        cases h
        exact hg.read? hread
      · cases h

theorem completeSwitch_fits (hg : g.Fits) (h : completeSwitch env g = .ok g') : g'.Fits := by
  unfold completeSwitch at h
  split at h
  · cases h
    exact hg
  · split at h
    · cases h
      exact hg
    · split at h
      · cases h
        exact ⟨hg.workers, hg.keepAliveDuration⟩
      · cases h

theorem foldlM_completeParameter_fits {parameters : List Parameter} (hg : g.Fits)
    (h : parameters.foldlM (completeParameter env) g = .ok g') : g'.Fits := by
  induction parameters generalizing g with
  | nil =>
    cases h
    exact hg
  | cons p parameters ih =>
    rw [List.foldlM_cons] at h
    obtain ⟨g₁, hg₁, h⟩ := exists_of_bind_eq_ok h
    exact ih (completeParameter_fits hg hg₁) h

theorem complete_fits (hg : g.Fits) (h : complete env g = .ok g') : g'.Fits := by
  obtain ⟨g₁, hg₁, h⟩ := exists_of_bind_eq_ok h
  exact completeSwitch_fits (foldlM_completeParameter_fits hg hg₁) h

/-! ### The arguments -/

/-- The defaults fit as well as what was given. -/
theorem Given.Fits.arguments (hg : g.Fits) (command : Option Command) :
    (g.arguments command).workers ≠ 0 ∧
      (Duration.parse? (g.arguments command).keepAliveDuration).isSome := by
  unfold Given.arguments
  constructor
  · show g.workers.getD 4 ≠ 0
    cases hworkers : g.workers with
    | none => decide
    | some n => exact hg.workers n hworkers
  · show (Duration.parse? (g.keepAliveDuration.getD "30m")).isSome
    cases hduration : g.keepAliveDuration with
    | none => decide
    | some text => exact hg.keepAliveDuration text hduration

/-- An operator that starts has workers, and its default duration is one. -/
theorem parse_fits {a : Arguments} (h : parse env words = .ok a) :
    a.workers ≠ 0 ∧ (Duration.parse? a.keepAliveDuration).isSome := by
  obtain ⟨⟨g, command⟩, hg, h⟩ := exists_of_bind_eq_ok h
  obtain ⟨g', hg', h⟩ := exists_of_bind_eq_ok h
  cases h
  have hempty : Given.Fits {} := ⟨fun n hn => (nomatch hn), fun text htext => nomatch htext⟩
  exact (complete_fits (readWords_fits hempty hg) hg').arguments command

end CommandLine

end WarmPool
