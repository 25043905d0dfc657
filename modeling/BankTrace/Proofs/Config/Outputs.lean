import BankTrace.Proofs.Config.Rules

/-!
# The output of a configuration

The path of the output is looked at by one check of validation, and that check looks at nothing
else. So it is told from any configuration without other faults what validation says about a path.
-/

namespace BankTrace.Config

/-! ## Checks in a row -/

theorem mem_of_firstFault? {checks : List (Option (Option ConfigError))} {e : ConfigError}
    (h : firstFault? checks = some (some e)) : some (some e) ∈ checks := by
  fun_induction firstFault? checks with
  | case1 => simp at h
  | case2 => simp at h
  | case3 => simp_all
  | case4 rest ih => exact List.mem_cons_of_mem _ (ih h)

theorem firstFault?_append (front behind : List (Option (Option ConfigError))) :
    firstFault? (front ++ behind) = (firstFault? front).bind fun answer =>
      if answer = none then firstFault? behind else some answer := by
  fun_induction firstFault? front with
  | case1 => simp
  | case2 => simp [firstFault?]
  | case3 => simp [firstFault?]
  | case4 rest ih => simpa [firstFault?] using ih

/-! ## The check of the output -/

/-- The output is checked last but for the number of data lines, and no other check looks at it. -/
theorem checks_with_output (c : Config) (output : Path) : { c with output := output }.checks =
    c.checks.take 11 ++ [some (demand output.fileName?.isSome (.invalidOutputPath output)),
      some (demand c.dataLineCount?.isSome .traceTooLarge)] := rfl

theorem traceTooLarge_not_mem_checks (c : Config) :
    some (some .traceTooLarge) ∉ c.checks.take 11 := by
  have hdemand {holds : Bool} {error : ConfigError} (hne : error ≠ .traceTooLarge) :
      some .traceTooLarge ≠ demand holds error := fun heq =>
    hne (demand_eq_some_iff.mp heq.symm).2.symm
  have hchannels : some .traceTooLarge ≠ c.channelFault? := by
    cases hmode : c.channelMode <;> simp [channelFault?, hmode, hdemand]
  have halignment : some (some .traceTooLarge) ≠ c.alignmentFault? := by
    cases horder : c.loopOrder with
    | rowColumnBank => simp [alignmentFault?, horder]
    | burstGroup => simp [alignmentFault?, horder, remainder?, Ne.symm (hdemand _)]
  simp [checks, hdemand, hchannels, halignment]

/-- What is wrong with a configuration that has another output, if nothing was wrong before the
output. -/
theorem fault?_with_output {c : Config} (h : firstFault? (c.checks.take 11) = some none)
    (output : Path) : { c with output := output }.fault? =
      (demand output.fileName?.isSome (.invalidOutputPath output)).or
        (demand c.dataLineCount?.isSome .traceTooLarge) := by
  have hfault := firstFault?_checks { c with output := output }
  rw [checks_with_output, firstFault?_append, h] at hfault
  rw [← Option.some_inj, ← hfault]
  cases output.fileName?.isSome <;> cases c.dataLineCount?.isSome <;> rfl

theorem validate_with_output {c : Config}
    (h : c.validate = .ok () ∨ c.validate = .error .traceTooLarge) (output : Path) :
    { c with output := output }.validate =
      if output.fileName?.isSome then c.validate else .error (.invalidOutputPath output) := by
  have hfault : c.fault? = none ∨ c.fault? = some .traceTooLarge := by
    unfold validate at h
    cases hc : c.fault? with
    | none => exact .inl rfl
    | some e => simpa [hc] using h
  have hfront : firstFault? (c.checks.take 11) = some none := by
    have hchecks := firstFault?_checks c
    rw [show c.checks = _ from c.checks_with_output c.output, firstFault?_append] at hchecks
    cases hanswer : firstFault? (c.checks.take 11) with
    | none => simp [hanswer] at hchecks
    | some answer =>
        cases answer with
        | none => rfl
        | some e =>
            obtain rfl : e = .traceTooLarge := by
              rcases hfault with hnone | hlarge
              · simp [hanswer, hnone] at hchecks
              · simpa [hanswer, hlarge] using hchecks
            exact absurd (mem_of_firstFault? hanswer) c.traceTooLarge_not_mem_checks
  have hself : c.fault? = demand c.dataLineCount?.isSome .traceTooLarge := by
    have hown : c.fault? = _ := fault?_with_output hfront c.output
    rw [hown] at hfault ⊢
    cases hname : c.output.fileName?.isSome with
    | true => rfl
    | false => simp [hname, demand] at hfault
  unfold validate
  rw [fault?_with_output hfront output, hself]
  cases output.fileName?.isSome <;> rfl

end BankTrace.Config
