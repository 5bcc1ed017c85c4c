import InfoFlow.Random.Words
import Mathlib.Data.List.Forall2

namespace InfoFlow.Random

variable {σ β γ : Type}

/-- The second of two computations goes on in the stream that the first one leaves. -/
theorem run_bind_eq (x : Random σ β) (f : β → Random σ γ) (s : σ) :
    (x >>= f).run s = (f (x.run s).1).run (x.run s).2 := rfl

/-- Every answer of a computation satisfies `P`, from every state of the stream. -/
def Always (x : Random σ β) (P : β → Prop) : Prop := ∀ s, P (x.run s).1

namespace Always

variable {P Q : β → Prop}

theorem mono {x : Random σ β} (hx : x.Always P) (hPQ : ∀ b, P b → Q b) : x.Always Q :=
  fun s => hPQ _ (hx s)

theorem of_pure {b : β} (hb : P b) : (pure b : Random σ β).Always P := fun _ => hb

theorem bind {R : γ → Prop} {x : Random σ β} {f : β → Random σ γ} (hx : x.Always P)
    (hf : ∀ b, P b → (f b).Always R) : (x >>= f).Always R :=
  fun s => hf _ (hx s) _

/-- Where nothing is known of an intermediate answer, the rest has to work for all of them. -/
theorem bind_any {R : γ → Prop} {x : Random σ β} {f : β → Random σ γ}
    (hf : ∀ b, (f b).Always R) : (x >>= f).Always R :=
  fun s => hf (x.run s).1 (x.run s).2

theorem map {R : γ → Prop} {x : Random σ β} {f : β → γ} (hx : x.Always P)
    (hf : ∀ b, P b → R (f b)) : (f <$> x).Always R :=
  fun s => hf _ (hx s)

/-- Two continuations of a computation may differ where it never arrives. -/
theorem bind_congr {x : Random σ β} {f g : β → Random σ γ} (hx : x.Always P)
    (hfg : ∀ b, P b → f b = g b) : x >>= f = x >>= g :=
  funext fun s => congrFun (hfg _ (hx s)) _

/-- A computation that may break down goes on from an answer, and ends with a breakdown. -/
theorem run_bind {P : Except Breakdown β → Prop} {R : Except Breakdown γ → Prop} {x : Drawing σ β}
    {f : β → Drawing σ γ} (hx : (x.run : Random σ _).Always P)
    (hf : ∀ b, P (.ok b) → ((f b).run : Random σ _).Always R)
    (hbroken : ∀ b, P (.error b) → R (.error b)) : ((x >>= f).run : Random σ _).Always R := by
  refine bind (f := ExceptT.bindCont f) hx fun answer hanswer => ?_
  cases answer with
  | error b => exact of_pure (hbroken b hanswer)
  | ok b => exact hf b hanswer

/-- A traversal answers for each element something that is right for it. -/
theorem mapM {R : β → γ → Prop} {f : β → Random σ γ} {xs : List β}
    (h : ∀ x ∈ xs, (f x).Always (R x)) : (xs.mapM f).Always fun ys => xs.Forall₂ R ys := by
  induction xs with
  | nil => exact of_pure .nil
  | cons x xs ih =>
    rw [List.mapM_cons]
    refine bind (h x List.mem_cons_self) fun y hy => ?_
    refine bind (ih fun x hx => h x (List.mem_cons_of_mem _ hx)) fun ys hys => ?_
    exact of_pure (.cons hy hys)

/-- What every step of a fold preserves holds after all of them. -/
theorem foldlM {step : β → γ → Random σ β} {xs : List γ} {b : β} (hb : P b)
    (hstep : ∀ b x, P b → x ∈ xs → (step b x).Always P) : (xs.foldlM step b).Always P := by
  induction xs generalizing b with
  | nil => exact of_pure hb
  | cons x xs ih =>
    rw [List.foldlM_cons]
    refine bind (hstep b x hb List.mem_cons_self) fun c hc => ?_
    exact ih hc fun d y hd hy => hstep d y hd (List.mem_cons_of_mem x hy)

end Always

/-- Two computations come to an answer if the first one does, and the second one from there on. -/
theorem run_drawing_bind_eq_ok_iff {x : Drawing σ β} {f : β → Drawing σ γ} {c : γ} {s s'' : σ} :
    (x >>= f).run.run s = (.ok c, s'') ↔
      ∃ b s', x.run.run s = (.ok b, s') ∧ (f b).run.run s' = (.ok c, s'') := by
  change (x.run >>= ExceptT.bindCont f).run s = _ ↔ _
  rw [run_bind_eq]
  rcases x.run.run s with ⟨b | b, s'⟩
  · exact iff_of_false nofun fun ⟨_, _, h, _⟩ => nomatch h
  · constructor
    · exact fun h => ⟨b, s', rfl, h⟩
    · rintro ⟨_, _, ⟨⟩, h⟩
      exact h

end InfoFlow.Random
