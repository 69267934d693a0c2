import ActiveHarmony.Lib.TextScan

/-!
# Scanners that write into their text

An `Editor` reads from a position of a buffer, and may overwrite what it has read. `Tracks` says that it
returns what a plain scanner returns of the text at the position, so that nothing it writes is read again.
`Marks` says for which values it has left the mark `z` in the buffer; for the others the buffer is as it
was.
-/

namespace TextScan

/-- A buffer and the position to read from. -/
abbrev Editor (α : Type) := StateT (Text × ℕ) Option α

variable {α β : Type}

/-- A scanner that writes nothing. -/
def reading (p : Scanner α) : Editor α := fun s =>
  (p (s.1.drop s.2)).map fun r => (r.1, (s.1, s.1.length - r.2.length))

/-- Edit `n` values in a row. -/
def timesEditor (e : Editor α) : ℕ → Editor (List α)
  | 0 => pure []
  | n + 1 => do
    let a ← e
    let as ← timesEditor e n
    pure (a :: as)

/-! ## Scanners that return the end of their text -/

def Suffixed (p : Scanner α) : Prop := ∀ buf a rest, p buf = some (a, rest) → rest <:+ buf

section
variable {p : Scanner α} {q : α → Scanner β}

lemma Suffixed.pure (a : α) : Suffixed (pure a) := by
  intro buf b rest h
  cases h
  exact List.suffix_refl _

lemma Suffixed.bind (hp : Suffixed p) (hq : ∀ a, Suffixed (q a)) : Suffixed (p >>= q) := by
  intro buf b rest h
  obtain ⟨⟨a, mid⟩, hread, hrest⟩ := Option.bind_eq_some_iff.mp h
  exact (hq a mid b rest hrest).trans (hp buf a mid hread)

lemma Suffixed.times (hp : Suffixed p) (n : ℕ) : Suffixed (times p n) := by
  induction n with
  | zero => exact Suffixed.pure []
  | succ n ih => exact hp.bind fun a => ih.bind fun as => Suffixed.pure (a :: as)

lemma skipSpace_suffix (buf : Text) : skipSpace buf <:+ buf := List.dropWhile_suffix _

lemma suffixed_literal (l : Text) : Suffixed (literal l) := by
  intro buf a rest h
  unfold literal at h
  dsimp only at h
  split_ifs at h
  cases h
  exact (List.drop_suffix _ _).trans (skipSpace_suffix buf)

lemma suffixed_word (n : ℕ) : Suffixed (word n) := by
  intro buf a rest h
  unfold word at h
  dsimp only at h
  split_ifs at h
  cases h
  exact (List.drop_suffix _ _).trans (skipSpace_suffix buf)

lemma suffixed_integer : Suffixed integer := fun _ _ _ h => integer_suffix h

end

/-! ## Editors that read as scanners do -/

/-- The editor returns what the scanner returns, and goes on where the scanner does. -/
def Tracks (e : Editor α) (p : Scanner α) : Prop :=
  ∀ s, (e s).map (fun r => (r.1, r.2.1.drop r.2.2)) = p (s.1.drop s.2)

section
variable {e : Editor α} {f : α → Editor β} {p : Scanner α} {q : α → Scanner β}

lemma Tracks.pure (a : α) : Tracks (pure a) (pure a) := fun _ => rfl

lemma Tracks.failure : Tracks (failure : Editor α) failure := fun _ => rfl

lemma Tracks.reading (hp : Suffixed p) : Tracks (reading p) p := by
  intro s
  unfold TextScan.reading
  cases h : p (s.1.drop s.2) with
  | none => rfl
  | some r =>
    have hsuffix := (hp _ r.1 r.2 h).trans (List.drop_suffix s.2 s.1)
    show some (r.1, s.1.drop (s.1.length - r.2.length)) = some r
    rw [← List.suffix_iff_eq_drop.mp hsuffix]

theorem Tracks.bind (he : Tracks e p) (hf : ∀ a, Tracks (f a) (q a)) : Tracks (e >>= f) (p >>= q) := by
  intro s
  have hfirst := he s
  show ((e s).bind fun r => f r.1 r.2).map _ = (p (s.1.drop s.2)).bind fun r => q r.1 r.2
  rw [← hfirst]
  cases e s with
  | none => rfl
  | some r => exact hf r.1 r.2

lemma Tracks.times (he : Tracks e p) (n : ℕ) : Tracks (timesEditor e n) (times p n) := by
  induction n with
  | zero => exact Tracks.pure []
  | succ n ih => exact he.bind fun a => ih.bind fun as => Tracks.pure (a :: as)

end

/-! ## Editors that leave a mark -/

variable (z : UInt8)

/-- The buffer has the same size and a mark. -/
def Marked (buf buf' : Text) : Prop := buf'.length = buf.length ∧ z ∈ buf'

/-- The buffer has a mark unless nothing was written. -/
def Keeps (e : Editor α) : Prop := ∀ s a s', e s = some (a, s') → s'.1 = s.1 ∨ Marked z s.1 s'.1

/-- The buffer has a mark if the value has the property, and is as it was if not. -/
def Marks (e : Editor α) (P : α → Prop) : Prop :=
  ∀ s a s', e s = some (a, s') → (P a → Marked z s.1 s'.1) ∧ (¬ P a → s'.1 = s.1)

variable {z} {e : Editor α} {f : α → Editor β} {P : α → Prop} {R : β → Prop}

lemma Marked.after_keeps {buf mid buf' : Text} (hfirst : mid = buf ∨ Marked z buf mid)
    (hmark : Marked z mid buf') : Marked z buf buf' := by
  obtain rfl | hfirst := hfirst
  · exact hmark
  · exact ⟨hmark.1.trans hfirst.1, hmark.2⟩

/-- A mark stays. -/
lemma Marked.before_keeps {buf mid buf' : Text} (hmark : Marked z buf mid)
    (hlast : buf' = mid ∨ Marked z mid buf') : Marked z buf buf' := by
  obtain rfl | hlast := hlast
  · exact hmark
  · exact ⟨hlast.1.trans hmark.1, hlast.2⟩

lemma Marks.keeps (he : Marks z e P) : Keeps z e := by
  intro s a s' h
  by_cases hP : P a
  · exact Or.inr ((he s a s' h).1 hP)
  · exact Or.inl ((he s a s' h).2 hP)

lemma Marks.pure {a : α} (ha : ¬ P a) : Marks z (pure a) P := by
  intro s b s' h
  cases h
  exact ⟨fun hP => absurd hP ha, fun _ => rfl⟩

lemma Marks.failure : Marks z (failure : Editor α) P := by
  intro s a s' h
  cases h

lemma Marks.reading (p : Scanner α) : Marks z (reading p) fun _ => False := by
  intro s a s' h
  obtain ⟨r, -, heq⟩ := Option.map_eq_some_iff.mp h
  cases heq
  exact ⟨False.elim, fun _ => rfl⟩

lemma Keeps.pure (a : α) : Keeps z (pure a) := @Marks.keeps _ z _ (fun _ => False) (Marks.pure id)

lemma Keeps.failure : Keeps z (failure : Editor α) := @Marks.keeps _ z _ (fun _ => False) Marks.failure

lemma Keeps.reading (p : Scanner α) : Keeps z (TextScan.reading p) := (Marks.reading p).keeps

theorem Keeps.bind (he : Keeps z e) (hf : ∀ a, Keeps z (f a)) : Keeps z (e >>= f) := by
  intro s b s' h
  obtain ⟨⟨a, s₁⟩, hfirst, hrest⟩ := Option.bind_eq_some_iff.mp h
  have hkeep := he s a s₁ hfirst
  obtain heq | hmark := hf a s₁ b s' hrest
  · rw [heq]
    exact hkeep
  · exact Or.inr (hmark.after_keeps hkeep)

lemma Keeps.times (he : Keeps z e) (n : ℕ) : Keeps z (timesEditor e n) := by
  induction n with
  | zero => exact Keeps.pure []
  | succ n ih => exact he.bind fun a => ih.bind fun as => Keeps.pure (a :: as)

lemma Marks.bind_always (he : Marks z e fun _ => True) (hf : ∀ a, Keeps z (f a)) :
    Marks z (e >>= f) fun _ => True := by
  intro s b s' h
  obtain ⟨⟨a, s₁⟩, hfirst, hrest⟩ := Option.bind_eq_some_iff.mp h
  have hmark := (he s a s₁ hfirst).1 trivial
  exact ⟨fun _ => hmark.before_keeps (hf a s₁ b s' hrest), fun hnot => absurd trivial hnot⟩

/-- Nothing is written in front. -/
lemma Marks.after (he : Marks z e fun _ => False) (hf : ∀ a, Marks z (f a) R) : Marks z (e >>= f) R := by
  intro s b s' h
  obtain ⟨⟨a, s₁⟩, hfirst, hrest⟩ := Option.bind_eq_some_iff.mp h
  rw [← (he s a s₁ hfirst).2 id]
  exact hf a s₁ b s' hrest

/-- The value is made from two that were read. -/
theorem Marks.pair {γ : Type} {e' : Editor β} {g : α → β → γ} {T : γ → Prop} (he : Marks z e P)
    (he' : Marks z e' R) (hT : ∀ a b, T (g a b) ↔ P a ∨ R b) :
    Marks z (e >>= fun a => e' >>= fun b => Pure.pure (g a b)) T := by
  intro s c s' h
  obtain ⟨⟨a, s₁⟩, hfirst, h⟩ := Option.bind_eq_some_iff.mp h
  obtain ⟨⟨b, s₂⟩, hsecond, heq⟩ := Option.bind_eq_some_iff.mp h
  cases heq
  rw [hT]
  constructor
  · rintro (hP | hR)
    · exact ((he s a s₁ hfirst).1 hP).before_keeps (he'.keeps s₁ b s' hsecond)
    · exact ((he' s₁ b s' hsecond).1 hR).after_keeps (he.keeps s a s₁ hfirst)
  · intro hnot
    rw [(he' s₁ b s' hsecond).2 fun hR => hnot (Or.inr hR), (he s a s₁ hfirst).2 fun hP => hnot (Or.inl hP)]

lemma Marks.map {g : α → β} (he : Marks z e P) (hR : ∀ a, R (g a) ↔ P a) :
    Marks z (e >>= fun a => Pure.pure (g a)) R := by
  intro s b s' h
  obtain ⟨⟨a, s₁⟩, hfirst, heq⟩ := Option.bind_eq_some_iff.mp h
  cases heq
  rw [hR]
  exact he s a s' hfirst

lemma Marks.times (he : Marks z e P) (n : ℕ) : Marks z (timesEditor e n) fun as => ∃ a ∈ as, P a := by
  induction n with
  | zero => exact Marks.pure (by simp)
  | succ n ih => exact he.pair ih fun a as => by simp

end TextScan
