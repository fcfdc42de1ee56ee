import WarmPool.Reconcile.Report

/-!
# What holds along a plan

A plan is judged by the calls it makes: `Plan.Meets ok post` says that every call it may come to is
`ok` after the calls already answered, whatever the replies, and that a value it ends with satisfies
`post`. Plans put one after the other meet what their parts meet (`Plan.Meets.bind`).
-/

namespace WarmPool.Reconcile

/-- A call with the reply that came back. -/
structure Answered where
  call : Call
  reply : Except Error call.Reply

namespace Plan

variable {α β : Type} {n : String} {ok : List Answered → Call → Prop} {past : List Answered}

/--
Every call is `ok` after the answered ones, the latest first, and the value at the end, if the plan
does not fail, satisfies `post`.
-/
def Meets (ok : List Answered → Call → Prop) (post : List Answered → α → Prop) :
    List Answered → Plan α → Prop
  | past, done (.ok a) => post past a
  | _, done (.error _) => True
  | past, call _ c next => ok past c ∧ ∀ reply, (next reply).Meets ok post (⟨c, reply⟩ :: past)
  | past, event _ next => next.Meets ok post past
  | past, measure _ next => next.Meets ok post past

variable {post : List Answered → α → Prop}

/-- A plan goes on where another one ended. -/
theorem Meets.bind {post' : List Answered → β → Prop} {p : Plan α} {f : α → Plan β}
    (h : p.Meets ok post past) (hf : ∀ past a, post past a → (f a).Meets ok post' past) :
    (p >>= f).Meets ok post' past := by
  show (Plan.bind p f).Meets ok post' past
  -- By induction on the first plan; only a call adds to what was answered.
  induction p generalizing past with
  | done result =>
    cases result with
    | error e => exact trivial
    | ok a => exact hf past a h
  | call n c next ih => exact ⟨h.1, fun reply => ih reply (h.2 reply)⟩
  | event e next ih => exact ih h
  | measure m next ih => exact ih h

theorem Meets.ask_bind {c : Call} {f : c.Reply → Plan α} (hc : ok past c)
    (hf : ∀ a, (f a).Meets ok post (⟨c, .ok a⟩ :: past)) : (ask n c >>= f).Meets ok post past := by
  refine ⟨hc, fun reply => ?_⟩
  cases reply with
  | error e => exact trivial
  | ok a => exact hf a

theorem Meets.attempt_bind {c : Call} {f : Except Error c.Reply → Plan α} (hc : ok past c)
    (hf : ∀ reply, (f reply).Meets ok post (⟨c, reply⟩ :: past)) :
    (attempt n c >>= f).Meets ok post past := ⟨hc, hf⟩

theorem Meets.orFail_bind {e : Error} {o : Option β} {f : β → Plan α}
    (hf : ∀ b, o = some b → (f b).Meets ok post past) : (orFail e o >>= f).Meets ok post past := by
  cases o with
  | none => exact trivial
  | some b => exact hf b rfl

/-- Every call of the plan is `ok` after the answered ones. -/
def Obeys (ok : List Answered → Call → Prop) (past : List Answered) (p : Plan α) : Prop :=
  p.Meets ok (fun _ _ => True) past

theorem Obeys.and {ok' : List Answered → Call → Prop} {p : Plan α} (h : p.Obeys ok past)
    (h' : p.Obeys ok' past) : p.Obeys (fun past c => ok past c ∧ ok' past c) past := by
  induction p generalizing past with
  | done result => cases result with
    | error e => exact trivial
    | ok a => exact trivial
  | call n c next ih => exact ⟨⟨h.1, h'.1⟩, fun reply => ih reply (h.2 reply) (h'.2 reply)⟩
  | event e next ih => exact ih h h'
  | measure m next ih => exact ih h h'

/-- What is `ok` may be weakened, given what was answered before the plan. -/
theorem Obeys.mono {ok' : List Answered → Call → Prop} {p : Plan α} (h : p.Obeys ok past)
    (himp : ∀ past' c, past <:+ past' → ok past' c → ok' past' c) : p.Obeys ok' past := by
  induction p generalizing past with
  | done result => cases result with
    | error e => exact trivial
    | ok a => exact trivial
  | call n c next ih =>
    refine ⟨himp past c (List.suffix_refl past) h.1, fun reply => ih reply (h.2 reply) ?_⟩
    exact fun past' c' hpast => himp past' c' ((List.suffix_cons _ past).trans hpast)
  | event e next ih => exact ih h himp
  | measure m next ih => exact ih h himp

end Plan

end WarmPool.Reconcile
