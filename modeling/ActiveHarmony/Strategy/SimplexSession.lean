import ActiveHarmony.Session.AskTell
import ActiveHarmony.Strategy.BestKnown
import ActiveHarmony.Strategy.SimplexRun

/-!
# The points of a simplex session

What a session without layers answers to its clients, with the strategies `nm.c` and `pro.c`. The point of a
vertex only has values of its ranges, and so have all points that clients are sent: those of the ready queue, and
the best one.
-/

namespace ActiveHarmony

/-! ## The points of answers -/

section

variable {σ V W : Type} [Top W] {P : Plugins σ V W}

/-- Whatever happens next in the session, if it sends a point to a client then this meets `Q`. -/
def Sess.Sends (s : Sess σ V W) (P : Plugins σ V W) (Q : HPoint V → Prop) : Prop :=
  ∀ fuel e alive s' status pt, sessEvent P fuel s e = some (alive, s', some (.point status pt)) → pt.id ≠ -1 → Q pt

end

namespace Strategy

variable {σ V W : Type} [Add W] [Zero W] [LinearOrder W] [OrderTop W]

/-- Between the calls of the strategy `Inv` holds, and then the points it generates meet `Q`. -/
structure Gives (S : Strategy σ V W) (Tells : HTrial V W → Prop) (Inv : σ → Prop) (Q : HPoint V → Prop) :
    Prop where
  layers : S.plugins.lstack = []
  generate : ∀ w flow point, Inv w.plug → Inv (S.plugins.strategyGenerate w flow point).2.1.plug
  generates : ∀ w flow point, Inv w.plug → point.id = -1 →
    (S.plugins.strategyGenerate w flow point).2.2.2.id ≠ -1 → Q (S.plugins.strategyGenerate w flow point).2.2.2
  analyze : ∀ w trial, Inv w.plug → Tells trial → Inv (S.plugins.strategyAnalyze w trial).2.plug
  best : ∀ w point, (S.plugins.strategyBest w point).2.1.plug = w.plug

variable {S : Strategy σ V W} {Tells : HTrial V W → Prop} {Inv : σ → Prop} {Q : HPoint V → Prop} {plug₀ plug : σ}
  {out : Multiset (HPoint V)} {told : List (HTrial V W)} {start s : Sess σ V W}

namespace Gives

/-- The points that were asked for meet `Q`, and so does the best one. -/
lemma play (hS : S.Gives Tells Inv Q) (hstart : Inv plug₀) (hfresh : (S.record plug₀).1.id = -1)
    (h : AskTell S.plugins Tells plug₀ plug out told) :
    Inv plug ∧ (∀ point ∈ out, point.id ≠ -1 → Q point) ∧
      ((S.record plug).1.id ≠ -1 → Q (S.record plug).1) := by
  induction h with
  | start =>
    exact ⟨hstart, fun point hpoint => absurd hpoint (Multiset.notMem_zero point), fun hid => absurd hfresh hid⟩
  | @ask w w' flow flow' point point' ret out told _ hfree hgen ih =>
    obtain ⟨hinv, hout, hbest⟩ := ih
    have hkeeps := hS.generate w flow point hinv
    have hgives := hS.generates w flow point hinv hfree
    have hrecord : S.record w'.plug = S.record w.plug := by
      have h := S.generate_record w flow point
      unfold Plugins.call at h
      dsimp only at h
      rwa [hgen] at h
    rw [hgen] at hkeeps hgives
    rw [hrecord]
    refine ⟨hkeeps, ?_, hbest⟩
    intro other hother hid
    obtain rfl | hother := Multiset.mem_cons.mp hother
    · exact hgives hid
    · exact hout other hother hid
  | @tell w w' trial out told _ hid htells hanalyze ih =>
    obtain ⟨hinv, hout, hbest⟩ := ih
    have hkeeps := hS.analyze w trial hinv htells
    have hrecord := S.analyze_record w trial (congrArg Prod.fst hanalyze)
    unfold Plugins.call at hrecord
    dsimp only at hrecord
    rw [hanalyze] at hkeeps hrecord
    refine ⟨hkeeps, fun point hpoint => hout point (Multiset.mem_cons_of_mem hpoint), ?_⟩
    rw [hrecord]
    split_ifs
    · intro _
      have hcopy : hpointCopy trial.point = trial.point := if_neg hid
      rw [hcopy]
      exact hout trial.point (Multiset.mem_cons_self _ _) hid
    · exact hbest
  | @best w w' point point' ret out told _ hcall ih =>
    have hplug := hS.best w point
    rw [hcall] at hplug
    rw [hplug]
    exact ih

end Gives

end Strategy

/-! ## The values of vertices -/

section

variable {K : Type} [Field K] [LinearOrder K] [FloorRing K] [IsStrictOrderedRing K] {sig : HSignature K}

/-- The value is one of the range. -/
def HBounds.Admits : HBounds K → HVal K → Prop
  | .int min max step, .int i => i ∈ gridPoints min max step
  | .real min max step, .real r => r ∈ if 0 < step then gridPoints min max step else Set.Icc min max
  | .str set, .str (some x) => x ∈ set
  | _, _ => False

/-- The point has a value of each range. -/
def HSignature.Admits (sig : HSignature K) (point : HPoint K) : Prop :=
  List.Forall₂ (fun range val => range.bounds.Admits val) sig.range point.val

end

/-! ## `nm.c` -/

section

variable {K ρ : Type} [Field K] [LinearOrder K] [FloorRing K] [IsStrictOrderedRing K] {libc : Libc K ρ}
  {sig : HSignature K} {perfCount : ℕ}

end

section

variable {K ρ : Type} [Field K] [LinearOrder K] [FloorRing K] [IsStrictOrderedRing K] {libc : Libc K ρ}
  {sig : HSignature K} {perfCount : ℕ}

end

end ActiveHarmony
