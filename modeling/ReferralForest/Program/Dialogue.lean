/-!
# Dialogues

A computation that asks its surroundings for things, one request at a time, and goes on with each
answer. It is a finite tree: it is done, or it fails, or it asks and has a rest for every answer.
What a request does is decided by whoever runs the tree, so a statement about all dialogues is proved
once, by induction on the tree, for all surroundings and all computations.

## Main definitions

* `Dialogue` — the trees, with their monad.
* `Dialogue.attempt` — turns a failure of the tree into a value.
* `Dialogue.through` — runs a dialogue inside another one that serves its requests.
* `Dialogue.runWith` — runs a dialogue in surroundings that have a state.
-/

namespace ReferralForest

/-- A computation that asks for answers and ends in a result or an error. -/
inductive Dialogue (Request : Type) (Answer : Request → Type) (ε α : Type) where
  /-- Ends with a result. -/
  | done (result : α)
  /-- Ends with an error. -/
  | fail (error : ε)
  /-- Asks, and goes on with the answer. -/
  | ask (request : Request) (next : Answer request → Dialogue Request Answer ε α)

namespace Dialogue

variable {Request : Type} {Answer : Request → Type} {ε ε' α β γ : Type}

/-- One dialogue after another, which gets the result of the first. -/
def bind : Dialogue Request Answer ε α → (α → Dialogue Request Answer ε β) →
    Dialogue Request Answer ε β
  | done a, f => f a
  | fail e, _ => fail e
  | ask request next, f => ask request fun answer => (next answer).bind f

instance : Monad (Dialogue Request Answer ε) where
  pure := done
  bind := bind

/-- A dialogue that only has a result is done. -/
@[simp] theorem pure_def (a : α) :
    (pure a : Dialogue Request Answer ε α) = done a := rfl

/-- What follows a dialogue that is done goes on with the result. -/
@[simp] theorem done_bind (a : α) (f : α → Dialogue Request Answer ε β) :
    (done a >>= f) = f a := rfl

/-- Nothing follows a dialogue that has failed. -/
@[simp] theorem fail_bind (e : ε) (f : α → Dialogue Request Answer ε β) :
    ((fail e : Dialogue Request Answer ε α) >>= f) = fail e := rfl

/-- What follows a question follows each answer to it. -/
@[simp] theorem ask_bind (request : Request)
    (next : Answer request → Dialogue Request Answer ε α) (f : α → Dialogue Request Answer ε β) :
    (ask request next >>= f) = ask request fun answer => next answer >>= f := rfl

/-- Nothing more than being done is added to a dialogue. -/
theorem bind_done (d : Dialogue Request Answer ε α) : (d >>= done) = d := by
  induction d with
  | done a => rfl
  | fail e => rfl
  | ask request next ih => exact congrArg (ask request) (funext ih)

/-- It does not matter how dialogues in a row are grouped. -/
theorem bind_bind (d : Dialogue Request Answer ε α) (f : α → Dialogue Request Answer ε β)
    (g : β → Dialogue Request Answer ε γ) : (d >>= f >>= g) = d >>= fun a => f a >>= g := by
  induction d with
  | done a => rfl
  | fail e => rfl
  | ask request next ih => exact congrArg (ask request) (funext ih)

instance : LawfulMonad (Dialogue Request Answer ε) :=
  LawfulMonad.mk' _ (fun d => bind_done d) (fun _ _ => rfl) bind_bind

/-- The dialogue that asks once and ends with the answer. -/
def request (q : Request) : Dialogue Request Answer ε (Answer q) :=
  ask q done

/-- The dialogue that asks nothing and ends as given. -/
def ofExcept : Except ε α → Dialogue Request Answer ε α
  | .ok a => done a
  | .error e => fail e

/-- Changes the error a dialogue ends with. -/
def mapError (f : ε → ε') : Dialogue Request Answer ε α → Dialogue Request Answer ε' α
  | done a => done a
  | fail e => fail (f e)
  | ask request next => ask request fun answer => (next answer).mapError f

/-- A dialogue that never fails: its result tells how the given one ended. -/
def attempt : Dialogue Request Answer ε α → Dialogue Request Answer ε' (Except ε α)
  | done a => done (.ok a)
  | fail e => done (.error e)
  | ask request next => ask request fun answer => (next answer).attempt

/-- Runs a dialogue inside another one, which serves each request with a dialogue of its own. -/
def through {Request' : Type} {Answer' : Request' → Type}
    (serve : (q : Request) → Dialogue Request' Answer' ε (Answer q)) :
    Dialogue Request Answer ε α → Dialogue Request' Answer' ε α
  | done a => done a
  | fail e => fail e
  | ask q next => serve q >>= fun answer => (next answer).through serve

/-- Serving requests passes through sequencing. -/
theorem through_bind {Request' : Type} {Answer' : Request' → Type}
    (serve : (q : Request) → Dialogue Request' Answer' ε (Answer q))
    (d : Dialogue Request Answer ε α) (f : α → Dialogue Request Answer ε β) :
    (d >>= f).through serve = d.through serve >>= fun a => (f a).through serve := by
  induction d with
  | done a => rfl
  | fail e => rfl
  | ask q next ih =>
    change (serve q >>= fun answer => (next answer >>= f).through serve) =
      (serve q >>= fun answer => (next answer).through serve) >>= fun a => (f a).through serve
    rw [bind_bind]
    exact congrArg _ (funext ih)

/-- Runs a dialogue in surroundings with a state, up to its end or to the first request that is
refused. The state at that point is kept either way. -/
def runWith {σ : Type} (answer : (q : Request) → σ → Except ε (Answer q) × σ) :
    Dialogue Request Answer ε α → σ → Except ε α × σ
  | done a, s => (.ok a, s)
  | fail e, s => (.error e, s)
  | ask q next, s =>
    match answer q s with
    | (.ok reply, s) => (next reply).runWith answer s
    | (.error e, s) => (.error e, s)

/-- Running one dialogue after another. -/
theorem runWith_bind {σ : Type} (answer : (q : Request) → σ → Except ε (Answer q) × σ)
    (d : Dialogue Request Answer ε α) (f : α → Dialogue Request Answer ε β) (s : σ) :
    (d >>= f).runWith answer s =
      match d.runWith answer s with
      | (.ok a, s) => (f a).runWith answer s
      | (.error e, s) => (.error e, s) := by
  induction d generalizing s with
  | done a => rfl
  | fail e => rfl
  | ask q next ih =>
    rw [ask_bind, runWith, runWith]
    split
    · exact ih _ _
    · rfl

end Dialogue

end ReferralForest
