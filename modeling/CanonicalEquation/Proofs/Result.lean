/-!
# Results that may be errors

A result that leads to another one is an error exactly when one of the two is.
-/

namespace CanonicalEquation

theorem bind_eq_ok_iff
    {result : Except error α}
    {next : α → Except error β}
    {value : β} :
    result >>= next = .ok value ↔ ∃ middle, result = .ok middle ∧ next middle = .ok value := by
  cases result with
  | error error =>
      constructor
      · exact nofun
      · rintro ⟨middle, impossible, _⟩
        cases impossible
  | ok middle =>
      constructor
      · exact fun equal => ⟨middle, rfl, equal⟩
      · rintro ⟨other, equal, found⟩
        cases equal
        exact found

theorem bind_eq_error_iff
    {result : Except error α}
    {next : α → Except error β}
    {failure : error} :
    result >>= next = .error failure ↔
      result = .error failure ∨ ∃ middle, result = .ok middle ∧ next middle = .error failure := by
  cases result with
  | error error =>
      constructor
      · rintro equal
        cases equal
        exact .inl rfl
      · rintro (equal | ⟨middle, impossible, _⟩)
        · cases equal
          rfl
        · cases impossible
  | ok middle =>
      constructor
      · exact fun failed => .inr ⟨middle, rfl, failed⟩
      · rintro (impossible | ⟨other, equal, failed⟩)
        · cases impossible
        · cases equal
          exact failed

/-- What a result leads to does not add an error where it cannot fail. -/
theorem bind_ok_eq_error_iff
    {result : Except error α}
    {next : α → β}
    {failure : error} :
    (result >>= fun value => .ok (next value)) = .error failure ↔ result = .error failure :=
  bind_eq_error_iff.trans (or_iff_left fun ⟨_, _, impossible⟩ => nomatch impossible)

theorem mapError_eq_ok_iff
    {result : Except error α}
    {rename : error → other}
    {value : α} : result.mapError rename = .ok value ↔ result = .ok value := by
  cases result with
  | error error => exact iff_of_false nofun nofun
  | ok found =>
      change Except.ok found = Except.ok value ↔ _
      rw [Except.ok.injEq, Except.ok.injEq]

theorem mapError_eq_error_iff
    {result : Except error α}
    {rename : error → other}
    {failure : other} :
    result.mapError rename = .error failure ↔
      ∃ cause, result = .error cause ∧ rename cause = failure := by
  cases result with
  | error cause =>
      constructor
      · exact fun equal => ⟨cause, rfl, Except.error.inj equal⟩
      · rintro ⟨found, equal, rfl⟩
        cases equal
        rfl
  | ok value => exact iff_of_false nofun fun ⟨_, impossible, _⟩ => nomatch impossible

theorem eq_ok_of_toOption
    {result : Except error α}
    {value : α}
    (found : result.toOption = some value) : result = .ok value := by
  cases result with
  | error error => cases found
  | ok other =>
      cases found
      rfl

theorem toOption_bind_of_none
    {result : Except error α}
    (failed : result.toOption = none)
    (next : α → Except error β) : (result >>= next).toOption = none := by
  cases result with
  | error error => rfl
  | ok value => cases failed

end CanonicalEquation
