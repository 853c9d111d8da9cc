import Mathlib.Logic.Function.Basic

/-!
# Async.Prog

Asynchronous functions as data. A program runs until it resolves (`ret`), rejects (`throw`) or
makes a call to the outside (`call`); the call is answered by a value or by an error, and the
answer picks the rest of the program. Every `await` of an asynchronous function is one `call`, so
the points where other programs can run are exactly the calls.

Errors are one type per interface, as in a language with a single kind of exception: a call that
fails rejects the program that awaits it unless the program catches it.

* `Prog.bind`, `Prog.tryCatch`: sequencing and `try`/`catch`, with the monad laws.
* `Prog.await`: one call, its failure passed on.
* `Prog.attempt`: the outcome as a value.
-/

namespace Async

/-- What programs can call, the value each call resolves to, and what calls and programs reject
with. -/
structure Interface where
  Call : Type
  Value : Call → Type
  Error : Type

/-- The answer to a call: a value, or a failure of the call. -/
abbrev Interface.Answer (I : Interface) (c : I.Call) : Type := Except I.Error (I.Value c)

inductive Prog (I : Interface) (α : Type) : Type where
  | ret (a : α)
  | throw (e : I.Error)
  | call (c : I.Call) (k : I.Answer c → Prog I α)

namespace Prog

variable {I : Interface} {α β : Type}

protected def bind : Prog I α → (α → Prog I β) → Prog I β
  | .ret a, f => f a
  | .throw e, _ => .throw e
  | .call c k, f => .call c fun r => (k r).bind f

protected def tryCatch : Prog I α → (I.Error → Prog I α) → Prog I α
  | .ret a, _ => .ret a
  | .throw e, h => h e
  | .call c k, h => .call c fun r => (k r).tryCatch h

instance : Monad (Prog I) where
  pure := .ret
  bind := Prog.bind

instance : MonadExceptOf I.Error (Prog I) where
  throw := .throw
  tryCatch := Prog.tryCatch

/-- One call. A failure of the call rejects the program. -/
def await (c : I.Call) : Prog I (I.Value c) :=
  .call c fun
    | .ok a => .ret a
    | .error e => .throw e

/-- The outcome of `p` as a value, so that the program goes on after a failure. -/
def attempt (p : Prog I α) : Prog I (Except I.Error α) :=
  (p.bind fun a => .ret (.ok a)).tryCatch fun e => .ret (.error e)

def outcome? : Prog I α → Option (Except I.Error α)
  | .ret a => some (.ok a)
  | .throw e => some (.error e)
  | .call _ _ => none

def next? : Prog I α → Option I.Call
  | .ret _ => none
  | .throw _ => none
  | .call c _ => some c

/-- However its calls are answered, the first program comes to the second. -/
inductive Leads : Prog I α → Prog I α → Prop where
  | here (q : Prog I α) : Leads q q
  | call {c : I.Call} {k : I.Answer c → Prog I α} {q : Prog I α} (h : ∀ r, Leads (k r) q) :
      Leads (.call c k) q

@[simp] theorem next?_call (c : I.Call) (k : I.Answer c → Prog I α) :
    (Prog.call c k).next? = some c := rfl

theorem eq_call_of_next? {p : Prog I α} {c : I.Call} (h : p.next? = some c) :
    ∃ k, p = .call c k := by
  cases p with
  | call c' k =>
    cases h
    exact ⟨k, rfl⟩
  | _ => cases h

@[simp] theorem pure_eq (a : α) : (pure a : Prog I α) = .ret a := rfl
@[simp] theorem throw_eq (e : I.Error) : (MonadExcept.throw e : Prog I α) = .throw e := rfl
@[simp] theorem ret_bind (a : α) (f : α → Prog I β) : (Prog.ret a : Prog I α) >>= f = f a := rfl
@[simp] theorem throw_bind (e : I.Error) (f : α → Prog I β) :
    (Prog.throw e : Prog I α) >>= f = .throw e := rfl
@[simp] theorem call_bind (c : I.Call) (k : I.Answer c → Prog I α) (f : α → Prog I β) :
    (Prog.call c k) >>= f = .call c fun r => k r >>= f := rfl
@[simp] theorem ret_tryCatch (a : α) (h : I.Error → Prog I α) :
    tryCatch (Prog.ret a : Prog I α) h = .ret a := rfl
@[simp] theorem throw_tryCatch (e : I.Error) (h : I.Error → Prog I α) :
    tryCatch (Prog.throw e : Prog I α) h = h e := rfl
@[simp] theorem call_tryCatch (c : I.Call) (k : I.Answer c → Prog I α) (h : I.Error → Prog I α) :
    tryCatch (Prog.call c k) h = .call c fun r => tryCatch (k r) h := rfl

@[simp] theorem attempt_ret (a : α) : (Prog.ret a : Prog I α).attempt = .ret (.ok a) := rfl
@[simp] theorem attempt_throw (e : I.Error) :
    (Prog.throw e : Prog I α).attempt = .ret (.error e) := rfl
@[simp] theorem attempt_call (c : I.Call) (k : I.Answer c → Prog I α) :
    (Prog.call c k).attempt = .call c fun r => (k r).attempt := rfl

@[simp] theorem outcome?_ret (a : α) : (Prog.ret a : Prog I α).outcome? = some (.ok a) := rfl
@[simp] theorem outcome?_throw (e : I.Error) :
    (Prog.throw e : Prog I α).outcome? = some (.error e) := rfl
@[simp] theorem outcome?_call (c : I.Call) (k : I.Answer c → Prog I α) :
    (Prog.call c k).outcome? = none := rfl

theorem outcome?_eq_ok {p : Prog I α} {a : α} (h : p.outcome? = some (.ok a)) : p = .ret a := by
  cases p <;> simp_all

theorem outcome?_eq_error {p : Prog I α} {e : I.Error} (h : p.outcome? = some (.error e)) :
    p = .throw e := by
  cases p <;> simp_all

theorem bind_ret (p : Prog I α) : p >>= (fun a => Prog.ret a) = p := by
  induction p with
  | ret a => rfl
  | throw e => rfl
  | call c k ih => simp [ih]

theorem bind_bind {γ : Type} (p : Prog I α) (f : α → Prog I β) (g : β → Prog I γ) :
    p >>= f >>= g = p >>= fun a => f a >>= g := by
  induction p with
  | ret a => rfl
  | throw e => rfl
  | call c k ih => simp [ih]

instance : LawfulMonad (Prog I) :=
  LawfulMonad.mk' (Prog I) (fun x => bind_ret x) (fun _ _ => rfl) bind_bind

end Prog

end Async
