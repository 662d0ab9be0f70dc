import Mathlib.Data.List.Forall2
import ProtocolBindings.Draft

namespace ProtocolBindings

theorem Except.bind_eq_ok {ε α β : Type} {x : Except ε α} {f : α → Except ε β} {b : β} :
    x >>= f = .ok b ↔ ∃ a, x = .ok a ∧ f a = .ok b := by
  cases x with
  | error e => exact ⟨nofun, nofun⟩
  | ok a => exact ⟨fun h => ⟨a, rfl, h⟩, fun ⟨_, ha, h⟩ => by cases ha; exact h⟩

theorem Except.map_eq_ok {ε α β : Type} {x : Except ε α} {f : α → β} {b : β} :
    x.map f = .ok b ↔ ∃ a, x = .ok a ∧ f a = b := by
  cases x with
  | error e => exact ⟨nofun, nofun⟩
  | ok a => simp [Except.map]

theorem exists_mem_of_forall₂ {α β : Type} {R : α → β → Prop} {as : List α} {bs : List β}
    (h : List.Forall₂ R as bs) {a : α} (ha : a ∈ as) : ∃ b ∈ bs, R a b := by
  induction h with
  | nil => cases ha
  | @cons c d as bs hcd _ ih =>
    rcases List.mem_cons.mp ha with rfl | ha
    · exact ⟨d, List.mem_cons_self, hcd⟩
    · obtain ⟨b, hb, hab⟩ := ih ha
      exact ⟨b, List.mem_cons_of_mem d hb, hab⟩

theorem Except.mapM_eq_ok {ε α β : Type} {f : α → Except ε β} {as : List α} {bs : List β} :
    as.mapM f = .ok bs ↔ List.Forall₂ (fun a b => f a = .ok b) as bs := by
  induction as generalizing bs with
  | nil =>
    rw [List.forall₂_nil_left_iff]
    exact ⟨fun h => by cases h; rfl, fun h => by cases h; rfl⟩
  | cons a as ih =>
    rw [List.mapM_cons, List.forall₂_cons_left_iff, bind_eq_ok]
    constructor
    · rintro ⟨b, hb, h⟩
      obtain ⟨rest, hrest, h⟩ := bind_eq_ok.mp h
      cases h
      exact ⟨b, rest, hb, ih.mp hrest, rfl⟩
    · rintro ⟨b, rest, hb, hrest, rfl⟩
      exact ⟨b, hb, bind_eq_ok.mpr ⟨rest, ih.mpr hrest, rfl⟩⟩

theorem Except.exists_of_mem_mapM {ε α β : Type} {f : α → Except ε β} {as : List α} {bs : List β}
    (h : as.mapM f = .ok bs) {b : β} (hb : b ∈ bs) : ∃ a ∈ as, f a = .ok b :=
  exists_mem_of_forall₂ (mapM_eq_ok.mp h).flip hb

theorem Except.bind_eq_error {ε α β : Type} {x : Except ε α} {f : α → Except ε β} {e : ε} :
    x >>= f = .error e ↔ x = .error e ∨ ∃ a, x = .ok a ∧ f a = .error e := by
  cases x with
  | error d =>
    constructor
    · intro h
      cases h
      exact .inl rfl
    · rintro (h | ⟨_, ha, _⟩)
      · cases h
        rfl
      · cases ha
  | ok a =>
    constructor
    · intro h
      exact .inr ⟨a, rfl, h⟩
    · rintro (h | ⟨_, ha, h⟩)
      · cases h
      · cases ha
        exact h

theorem Except.exists_of_mapM_eq_error {ε α β : Type} {f : α → Except ε β} {as : List α} {e : ε}
    (h : as.mapM f = .error e) : ∃ a ∈ as, f a = .error e := by
  induction as with
  | nil => cases h
  | cons a as ih =>
    rw [List.mapM_cons] at h
    rcases bind_eq_error.mp h with h | ⟨_, _, h⟩
    · exact ⟨a, List.mem_cons_self, h⟩
    · rcases bind_eq_error.mp h with h | ⟨_, _, h⟩
      · obtain ⟨c, hc, hce⟩ := ih h
        exact ⟨c, List.mem_cons_of_mem a hc, hce⟩
      · cases h

theorem Except.exists_of_mapM_eq_ok {ε α β : Type} {f : α → Except ε β} {as : List α} {bs : List β}
    (h : as.mapM f = .ok bs) {a : α} (ha : a ∈ as) : ∃ b, f a = .ok b := by
  obtain ⟨b, _, hb⟩ := exists_mem_of_forall₂ (mapM_eq_ok.mp h) ha
  exact ⟨b, hb⟩

/-- What every step of a fold keeps, and what every step shows of the element it takes. -/
theorem Except.forall_of_foldlM {ε α β : Type} {f : β → α → Except ε β} {I : β → Prop}
    {P : α → Prop} (step : ∀ b a c, f b a = .ok c → I b → I c ∧ P a) {as : List α} {b c : β}
    (h : as.foldlM f b = .ok c) (hb : I b) : I c ∧ ∀ a ∈ as, P a := by
  induction as generalizing b with
  | nil =>
    cases h
    exact ⟨hb, List.forall_mem_nil _⟩
  | cons a as ih =>
    rw [List.foldlM_cons] at h
    obtain ⟨d, hd, h⟩ := bind_eq_ok.mp h
    obtain ⟨hI, hP⟩ := step b a d hd hb
    obtain ⟨hc, hrest⟩ := ih h hI
    exact ⟨hc, List.forall_mem_cons.mpr ⟨hP, hrest⟩⟩

/-- A fold that fails goes well up to the element at which it does. -/
theorem Except.exists_of_foldlM_eq_error {ε α β : Type} {f : β → α → Except ε β} {as : List α}
    {b : β} {e : ε} (h : as.foldlM f b = .error e) :
    ∃ before a after c, as = before ++ a :: after ∧ before.foldlM f b = .ok c ∧
      f c a = .error e := by
  induction as generalizing b with
  | nil => cases h
  | cons a as ih =>
    rw [List.foldlM_cons] at h
    rcases bind_eq_error.mp h with h | ⟨d, hd, h⟩
    · exact ⟨[], a, as, b, rfl, rfl, h⟩
    · obtain ⟨before, a', after, c, rfl, hbefore, he⟩ := ih h
      refine ⟨a :: before, a', after, c, rfl, ?_, he⟩
      rw [List.foldlM_cons]
      exact bind_eq_ok.mpr ⟨d, hd, hbefore⟩

namespace Draft

variable {ω ω' α β : Type} {x : Draft ω α} {f : α → Draft ω β} {P : ω → Prop}

/-- Drafts that go on alike after what they have found are equal. -/
theorem bind_congr {f g : α → Draft ω β} (h : ∀ a, x.result = .ok a → f a = g a) :
    x >>= f = x >>= g := by
  cases hx : x.result with
  | error e => rw [bind_of_error hx, bind_of_error hx]
  | ok a => rw [bind_of_ok hx, bind_of_ok hx, h a hx]

theorem result_bind (x : Draft ω α) (f : α → Draft ω β) :
    (x >>= f).result = x.result >>= fun a => (f a).result := by
  cases h : x.result with
  | error e => rw [bind_of_error h]; rfl
  | ok a => rw [bind_of_ok h]; rfl

theorem result_bind_eq_ok {b : β} :
    (x >>= f).result = .ok b ↔ ∃ a, x.result = .ok a ∧ (f a).result = .ok b := by
  rw [result_bind]
  exact Except.bind_eq_ok

theorem result_mapM (f : α → Draft ω β) (as : List α) :
    (as.mapM f).result = as.mapM fun a => (f a).result := by
  induction as with
  | nil => rfl
  | cons a as ih =>
    rw [List.mapM_cons, List.mapM_cons, result_bind]
    congr 1
    funext b
    rw [result_bind, ih]
    rfl

theorem exists_of_mapM_eq_error {as : List α} {e : SchemaError}
    (h : (as.mapM f).result = .error e) : ∃ a ∈ as, (f a).result = .error e := by
  rw [result_mapM] at h
  exact Except.exists_of_mapM_eq_error h

theorem exists_of_mapM_eq_ok {as : List α} {bs : List β} (h : (as.mapM f).result = .ok bs) :
    ∀ a ∈ as, ∃ b, (f a).result = .ok b := by
  rw [result_mapM] at h
  intro a ha
  exact Except.exists_of_mapM_eq_ok h ha

theorem result_foldlM (f : β → α → Draft ω β) (as : List α) (b : β) :
    (as.foldlM f b).result = as.foldlM (fun b a => (f b a).result) b := by
  induction as generalizing b with
  | nil => rfl
  | cons a as ih =>
    rw [List.foldlM_cons, List.foldlM_cons, result_bind]
    congr 1
    funext c
    exact ih c

@[simp] theorem result_silent (x : Draft ω α) : (x.silent : Draft ω' α).result = x.result := rfl

def Writes (P : ω → Prop) (x : Draft ω α) : Prop :=
  ∀ w ∈ x.written, P w

theorem writes_pure (a : α) : (pure a : Draft ω α).Writes P := by
  intro w hw
  cases hw

theorem writes_lift (y : Except SchemaError α) : (lift y : Draft ω α).Writes P := by
  intro w hw
  cases hw

theorem writes_fail (e : SchemaError) : (fail e : Draft ω α).Writes P := by
  intro w hw
  cases hw

theorem writes_silent (y : Draft ω' α) : (y.silent : Draft ω α).Writes P := by
  intro w hw
  cases hw

theorem writes_write {w : ω} (h : P w) : (write w).Writes P := by
  intro v hv
  cases List.mem_singleton.mp hv
  exact h

theorem writes_writeAll {ws : List ω} (h : ∀ w ∈ ws, P w) : (writeAll ws).Writes P :=
  h

theorem writes_mapWritten {g : ω' → ω} {y : Draft ω' α} (h : ∀ w, P (g w)) :
    (y.mapWritten g).Writes P := by
  intro w hw
  obtain ⟨v, _, rfl⟩ := List.mem_map.mp hw
  exact h v

theorem Writes.bind (hx : x.Writes P) (hf : ∀ a, x.result = .ok a → (f a).Writes P) :
    (x >>= f).Writes P := by
  cases h : x.result with
  | error e =>
    rw [bind_of_error h]
    exact hx
  | ok a =>
    rw [bind_of_ok h]
    intro w hw
    rcases List.mem_append.mp hw with hw | hw
    · exact hx w hw
    · exact hf a h w hw

end Draft

end ProtocolBindings
