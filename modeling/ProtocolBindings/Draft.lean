import ProtocolBindings.Schema.Error

namespace ProtocolBindings

/-- What was written, and the result or the error at which it stopped. -/
structure Draft (ω α : Type) where
  written : List ω
  result : Except SchemaError α

namespace Draft

variable {ω ω' α β γ : Type}

protected def pure (a : α) : Draft ω α :=
  ⟨[], .ok a⟩

protected def bind (x : Draft ω α) (f : α → Draft ω β) : Draft ω β :=
  match x.result with
  | .ok a =>
    let next := f a
    ⟨x.written ++ next.written, next.result⟩
  | .error e => ⟨x.written, .error e⟩

instance : Monad (Draft ω) where
  pure := Draft.pure
  bind := Draft.bind

def fail (e : SchemaError) : Draft ω α :=
  ⟨[], .error e⟩

def write (record : ω) : Draft ω Unit :=
  ⟨[record], .ok ()⟩

def writeAll (records : List ω) : Draft ω Unit :=
  ⟨records, .ok ()⟩

/-- A computation that writes nothing. -/
def lift (x : Except SchemaError α) : Draft ω α :=
  ⟨[], x⟩

/-- The same computation with its records renamed. -/
def mapWritten (f : ω → ω') (x : Draft ω α) : Draft ω' α :=
  ⟨x.written.map f, x.result⟩

/-- The result alone. -/
def silent (x : Draft ω α) : Draft ω' α :=
  ⟨[], x.result⟩

@[simp] theorem written_pure (a : α) : (pure a : Draft ω α).written = [] := rfl

@[simp] theorem result_pure (a : α) : (pure a : Draft ω α).result = .ok a := rfl

theorem bind_of_ok {x : Draft ω α} {a : α} (h : x.result = .ok a) (f : α → Draft ω β) :
    x >>= f = ⟨x.written ++ (f a).written, (f a).result⟩ := by
  show Draft.bind x f = _
  simp only [Draft.bind, h]

theorem bind_of_error {x : Draft ω α} {e : SchemaError} (h : x.result = .error e)
    (f : α → Draft ω β) : x >>= f = ⟨x.written, .error e⟩ := by
  show Draft.bind x f = _
  simp only [Draft.bind, h]

theorem bind_pure_id (x : Draft ω α) : x >>= pure = x := by
  cases h : x.result with
  | error e => rw [bind_of_error h, ← h]
  | ok a => rw [bind_of_ok h, written_pure, result_pure, List.append_nil, ← h]

theorem pure_bind_eq (a : α) (f : α → Draft ω β) : pure a >>= f = f a :=
  bind_of_ok (result_pure a) f

theorem bind_bind (x : Draft ω α) (f : α → Draft ω β) (g : β → Draft ω γ) :
    x >>= f >>= g = x >>= fun a => f a >>= g := by
  cases h : x.result with
  | error e => rw [bind_of_error h, bind_of_error h, bind_of_error rfl]
  | ok a =>
    rw [bind_of_ok h, bind_of_ok h]
    cases h' : (f a).result with
    | error e => rw [bind_of_error h', bind_of_error rfl]
    | ok b => rw [bind_of_ok h', bind_of_ok rfl, List.append_assoc]

instance : LawfulMonad (Draft ω) :=
  LawfulMonad.mk' (Draft ω) bind_pure_id pure_bind_eq bind_bind

end Draft

end ProtocolBindings
