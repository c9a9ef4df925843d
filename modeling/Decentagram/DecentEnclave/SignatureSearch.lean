import Decentagram.DecentEnclave.ReportAcceptance

/-! # The search for the certificate that signed a report

`VerifySign` moves its cursor before it asks whether there is a next certificate: the last
certificate of a longer chain is never tried, and a chain of one ends the search with the exception
of `NextCert`.
-/

namespace Decentagram.DecentEnclave

open Decentagram.Lib Decentagram.Mbedtls

namespace Env

variable {Crt : Type} (env : Env Crt)

/-- The search finds the certificate wherever it stands, and else refuses the signature. -/
structure SearchesAll (reportSet : IasReportSet) (certChain : List Crt) : Prop where
  finds : (∃ crt ∈ certChain, env.Signs reportSet crt) → env.verifySign reportSet certChain = .ok ()
  refuses : (∀ crt ∈ certChain, ¬ env.Signs reportSet crt) →
    env.verifySign reportSet certChain = .error (.exception "IAS report signature verification failed")

variable {env}

theorem mem_of_mem_tried {crt : Crt} : ∀ {certChain : List Crt}, crt ∈ tried certChain → crt ∈ certChain
  | [], member => by simp [tried] at member
  | [_], member => member
  | _ :: _ :: _, member => List.mem_of_mem_dropLast member

/-- How the search ends when it finds nothing: after two certificates or more there is no error of the
    cursor. -/
theorem verifySignFrom_none {hash : Hash} {sign : Bytes} : ∀ {certChain : List Crt},
    certChain ≠ [] → (∀ crt ∈ certChain, env.x509.pkVerify crt hash.toList sign = false) →
      env.verifySignFrom hash sign certChain =
        if certChain.length = 1 then
          .error (.runtimeException "There is no next certificate in the chain.")
        else .error (.exception "IAS report signature verification failed")
  | [], nonempty, _ => absurd rfl nonempty
  | [curr], _, unsigned => by simp [verifySignFrom, unsigned]
  | [curr, last], _, unsigned => by simp [verifySignFrom, unsigned]
  | curr :: second :: third :: rest, _, unsigned => by
    have following := verifySignFrom_none (List.cons_ne_nil second (third :: rest)) fun crt member =>
      unsigned crt (List.mem_cons_of_mem _ member)
    unfold verifySignFrom
    simp [unsigned curr List.mem_cons_self, following]

theorem verifySign_complete_iff (reportSet : IasReportSet) {certChain : List Crt}
    (nonempty : certChain ≠ []) :
    env.SearchesAll reportSet certChain ↔
      (∃ crt ∈ tried certChain, env.Signs reportSet crt) ∨
        2 ≤ certChain.length ∧ ∀ crt ∈ certChain, ¬ env.Signs reportSet crt := by
  have found : env.verifySign reportSet certChain = .ok () ↔
      ∃ crt ∈ tried certChain, env.Signs reportSet crt := verifySignFrom_ok_iff
  constructor
  · intro searches
    by_cases signed : ∃ crt ∈ certChain, env.Signs reportSet crt
    · exact .inl (found.mp (searches.finds signed))
    · have none : ∀ crt ∈ certChain, ¬ env.Signs reportSet crt := fun crt member signs =>
        signed ⟨crt, member, signs⟩
      refine .inr ⟨?_, none⟩
      have refused := searches.refuses none
      rw [verifySign, verifySignFrom_none nonempty fun crt member => Bool.not_eq_true _ ▸ none crt member]
        at refused
      -- A chain of one ends with another error.
      by_contra short
      have single : certChain.length = 1 := by
        have positive := List.length_pos_iff.mpr nonempty
        omega
      rw [if_pos single] at refused
      cases refused
  · rintro (signed | ⟨long, none⟩)
    · refine ⟨fun _ => found.mpr signed, ?_⟩
      intro none
      obtain ⟨crt, member, signs⟩ := signed
      exact absurd signs (none crt (mem_of_mem_tried member))
    · constructor
      · rintro ⟨crt, member, signs⟩
        exact absurd signs (none crt member)
      intro _
      rw [verifySign, verifySignFrom_none nonempty fun crt member => Bool.not_eq_true _ ▸ none crt member]
      rw [if_neg (by omega)]

end Env

/-- A signature by the second of three certificates is found. -/
theorem verifySign_complete_iff_sample :
    ForgedReport.env.SearchesAll ForgedReport.reportSet [.signing, .stranger, .stranger] := by
  apply (Env.verifySign_complete_iff ForgedReport.reportSet (List.cons_ne_nil _ _)).mpr
  exact .inl ⟨.stranger, by simp [Env.tried], ForgedReport.stranger_signs⟩

/-- The certificate of a verified chain of one has not signed the report, and the search ends with an
    error of the cursor. -/
theorem single_certificate_not_refused :
    ForgedReport.env.verifyCert [.signing] = .ok [.signing, .root] ∧
      ¬ ForgedReport.env.SearchesAll ForgedReport.reportSet [.signing] := by
  constructor
  · have verified : ForgedReport.x509.verifyWithProfile certVrfyProfile [.root] [.signing] =
        .ok [.signing, .root] := by decide +kernel
    simp only [Env.verifyCert, bind_eq_ok]
    refine ⟨_, ForgedReport.getRootCaCert_eq, ?_⟩
    rw [show ForgedReport.env.x509 = ForgedReport.x509 from rfl, verified]
    rfl
  · intro searches
    have refused := searches.refuses (by simp [Env.Signs, ForgedReport.env, ForgedReport.x509])
    simp [Env.verifySign, Env.verifySignFrom, ForgedReport.env, ForgedReport.x509] at refused

end Decentagram.DecentEnclave
