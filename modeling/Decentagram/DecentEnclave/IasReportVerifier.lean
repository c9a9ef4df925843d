import Decentagram.DecentEnclave.X509Crt

/-! # Verification of IAS report sets

`IasEpidReportVerifier::VerifyAndReduceReportSet` with the certificate list it works on and the quote
verifier it is given.  A chain of certificates is the list of `mbedtls_x509_crt` that starts at the
pointer of the `X509Cert` object; the cursor of the object is a suffix of it.
-/

namespace Decentagram.DecentEnclave

open Decentagram.Mbedtls

abbrev Hash := Vector UInt8 32
abbrev ReportData := Vector UInt8 64

inductive Thrown where
  /-- `mbedTLSRuntimeError`, the only exception that `VerifySign` catches. -/
  | mbedTlsRuntimeError
  /-- `InvalidObjectException` of `NullCheck`. -/
  | invalidObject
  | runtimeException (text : String)
  | exception (text : String)
  /-- Thrown by the JSON and Base64 libraries. -/
  | library (text : String)
deriving DecidableEq, Repr

/-- A parsed JSON value, as far as the verifier tells values apart. -/
inductive Json where
  | string (text : String)
  | dict (entries : List (String × Json))
  | other
deriving Repr

/-- The libraries under the verifier. -/
structure Env (Crt : Type) where
  x509 : X509Lib Crt
  sha256 : Bytes → Hash
  parseJson : Bytes → Except Thrown Json
  base64Decode : String → Except Thrown Bytes

structure IasReportSet where
  iasCert : List Bytes
  report : Bytes
  reportSign : Bytes
deriving DecidableEq, Repr

namespace Json

def asDict : Json → Except Thrown (List (String × Json))
  | .dict entries => .ok entries
  | _ => .error (.library "not a dictionary")

def asString : Json → Except Thrown String
  | .string text => .ok text
  | _ => .error (.library "not a string")

end Json

/-! ## The quote verifier -/

/-- `sizeof(sgx_quote_t) - sizeof(uint32_t)` -/
def quoteBodySize : Nat := 432

/-- `sgx_quote_t`, whose fields are read at their offsets. -/
abbrev Quote := Bytes

namespace Quote

def mrEnclave (quote : Quote) : Bytes := (quote.drop 112).take 32

def reportData (quote : Quote) : Bytes := (quote.drop 368).take 64

end Quote

structure EpidQuoteVerifier where
  authEnclaves : List Bytes
  addReportData : Bytes
  stdReportData : ReportData

namespace EpidQuoteVerifier

variable {Crt : Type}

def parseQuoteFromB64 (env : Env Crt) (b64Str : String) : Except Thrown Quote := do
  let decoded ← env.base64Decode b64Str
  if decoded.length ≠ quoteBodySize then throw (.exception "Failed to decode the quote body")
  else pure decoded

def verifyMrEnclave (verifier : EpidQuoteVerifier) (mrEnclave : Bytes) : Except Thrown Unit :=
  if mrEnclave ∈ verifier.authEnclaves then pure ()
  else throw (.exception "The enclave being verified is not authorized.")

def reportDataFromHash (hash : Hash) : Bytes := hash.toList ++ List.replicate 32 0

def verifyReportData (verifier : EpidQuoteVerifier) (env : Env Crt) (reportData : Bytes) :
    Except Thrown Unit :=
  let expData :=
    if verifier.addReportData.length = 0 then verifier.stdReportData.toList
    else reportDataFromHash (env.sha256 (verifier.stdReportData.toList ++ verifier.addReportData))
  if reportData = expData then pure ()
  else throw (.exception "The report data does not match the expected one")

def verify (verifier : EpidQuoteVerifier) (env : Env Crt) (quote : Quote) : Except Thrown Unit := do
  verifier.verifyMrEnclave quote.mrEnclave
  verifier.verifyReportData env quote.reportData

end EpidQuoteVerifier

/-! ## Certificate chains -/

/-- The text of the certificate in `GetRootCaCert`. -/
@[irreducible] def rootCaPem : String := String.join [
  "-----BEGIN CERTIFICATE-----\n",
  "MIIFSzCCA7OgAwIBAgIJANEHdl0yo7CUMA0GCSqGSIb3DQEBCwUAMH4xCzAJBgNV\n",
  "BAYTAlVTMQswCQYDVQQIDAJDQTEUMBIGA1UEBwwLU2FudGEgQ2xhcmExGjAYBgNV\n",
  "BAoMEUludGVsIENvcnBvcmF0aW9uMTAwLgYDVQQDDCdJbnRlbCBTR1ggQXR0ZXN0\n",
  "YXRpb24gUmVwb3J0IFNpZ25pbmcgQ0EwIBcNMTYxMTE0MTUzNzMxWhgPMjA0OTEy\n",
  "MzEyMzU5NTlaMH4xCzAJBgNVBAYTAlVTMQswCQYDVQQIDAJDQTEUMBIGA1UEBwwL\n",
  "U2FudGEgQ2xhcmExGjAYBgNVBAoMEUludGVsIENvcnBvcmF0aW9uMTAwLgYDVQQD\n",
  "DCdJbnRlbCBTR1ggQXR0ZXN0YXRpb24gUmVwb3J0IFNpZ25pbmcgQ0EwggGiMA0G\n",
  "CSqGSIb3DQEBAQUAA4IBjwAwggGKAoIBgQCfPGR+tXc8u1EtJzLA10Feu1Wg+p7e\n",
  "LmSRmeaCHbkQ1TF3Nwl3RmpqXkeGzNLd69QUnWovYyVSndEMyYc3sHecGgfinEeh\n",
  "rgBJSEdsSJ9FpaFdesjsxqzGRa20PYdnnfWcCTvFoulpbFR4VBuXnnVLVzkUvlXT\n",
  "L/TAnd8nIZk0zZkFJ7P5LtePvykkar7LcSQO85wtcQe0R1Raf/sQ6wYKaKmFgCGe\n",
  "NpEJUmg4ktal4qgIAxk+QHUxQE42sxViN5mqglB0QJdUot/o9a/V/mMeH8KvOAiQ\n",
  "byinkNndn+Bgk5sSV5DFgF0DffVqmVMblt5p3jPtImzBIH0QQrXJq39AT8cRwP5H\n",
  "afuVeLHcDsRp6hol4P+ZFIhu8mmbI1u0hH3W/0C2BuYXB5PC+5izFFh/nP0lc2Lf\n",
  "6rELO9LZdnOhpL1ExFOq9H/B8tPQ84T3Sgb4nAifDabNt/zu6MmCGo5U8lwEFtGM\n",
  "RoOaX4AS+909x00lYnmtwsDVWv9vBiJCXRsCAwEAAaOByTCBxjBgBgNVHR8EWTBX\n",
  "MFWgU6BRhk9odHRwOi8vdHJ1c3RlZHNlcnZpY2VzLmludGVsLmNvbS9jb250ZW50\n",
  "L0NSTC9TR1gvQXR0ZXN0YXRpb25SZXBvcnRTaWduaW5nQ0EuY3JsMB0GA1UdDgQW\n",
  "BBR4Q3t2pn680K9+QjfrNXw7hwFRPDAfBgNVHSMEGDAWgBR4Q3t2pn680K9+Qjfr\n",
  "NXw7hwFRPDAOBgNVHQ8BAf8EBAMCAQYwEgYDVR0TAQH/BAgwBgEB/wIBADANBgkq\n",
  "hkiG9w0BAQsFAAOCAYEAeF8tYMXICvQqeXYQITkV2oLJsp6J4JAqJabHWxYJHGir\n",
  "IEqucRiJSSx+HjIJEUVaj8E0QjEud6Y5lNmXlcjqRXaCPOqK0eGRz6hi+ripMtPZ\n",
  "sFNaBwLQVV905SDjAzDzNIDnrcnXyB4gcDFCvwDFKKgLRjOB/WAqgscDUoGq5ZVi\n",
  "zLUzTqiQPmULAQaB9c6Oti6snEFJiCQ67JLyW/E83/frzCmO5Ru6WjU4tmsmy8Ra\n",
  "Ud4APK0wZTGtfPXU7w+IBdG5Ez0kE1qzxGQaL4gINJ1zMyleDnbuS8UicjJijvqA\n",
  "152Sq049ESDz+1rRGc2NVEqh1KaGXmtXvqxXcTB+Ljy5Bw2ke0v8iGngFBPqCTVB\n",
  "3op5KBG3RjbF6RRSzwzuWfL7QErNC8WEy5yDVARzTA5+xmBc388v9Dm21HGfcC8O\n",
  "DD+gT9sSpssq0ascmvH49MOgjt1yoysLtdCtJW/9FZpoOypaHx0R+mJTLwPXVMrv\n",
  "DaVzWh5aiEx+idkSGMnX\n",
  "-----END CERTIFICATE-----\n"]

/-- `GetCertVrfyProfile`: SHA-256 signatures by RSA keys of 2048 bits or more. -/
def certVrfyProfile : CrtProfile where
  allowedMds := idFlag 4
  allowedPks := idFlag 1
  allowedCurves := 0
  rsaMinBitlen := 2048

namespace Env

variable {Crt : Type} (env : Env Crt)

def getRootCaCert : Except Thrown (List Crt) :=
  match env.x509.parsePem rootCaPem with
  | some certs => .ok certs
  | none => .error .mbedTlsRuntimeError

/-- `X509Cert::AppendDER` -/
def appendDer (chain : List Crt) (der : Bytes) : Except Thrown (List Crt) :=
  match env.x509.parseDer der chain with
  | some chain => .ok chain
  | none => .error .mbedTlsRuntimeError

def x509CertFromDerList (derList : List Bytes) : Except Thrown (List Crt) :=
  derList.foldlM env.appendDer [env.x509.blank]

/-- The loop over the chain; `HasNext` checks the object first, so an empty chain throws. -/
def x509Cert2DerList : List Crt → Except Thrown (List Bytes)
  | [] => .error .invalidObject
  | [curr] => .ok [env.x509.raw curr]
  | curr :: next :: rest => do
    let derList ← x509Cert2DerList (next :: rest)
    pure (env.x509.raw curr :: derList)

/-- `X509Cert::ShrinkChain`: the certificates that are in `ca` are removed. -/
def shrinkChain (ca : List Crt) : List Crt → List Crt
  | [] => []
  | curr :: next =>
    let found := ca.any fun currCa => env.x509.raw curr = env.x509.raw currCa
    if found then shrinkChain ca next else curr :: shrinkChain ca next

def shrinkCertChain (reportSet : IasReportSet) : Except Thrown IasReportSet := do
  let certChain ← env.x509CertFromDerList reportSet.iasCert
  let rootCa ← env.getRootCaCert
  let derList ← env.x509Cert2DerList (env.shrinkChain rootCa certChain)
  pure { reportSet with iasCert := derList }

/-! ## The checks -/

/-- Returns the path that was verified, for the proofs.  The library reports flags with an error, so
`VerifyCert` finds no flags to reject after the call. -/
def verifyCert (parsedCertChain : List Crt) : Except Thrown (List Crt) := do
  let rootCa ← env.getRootCaCert
  match env.x509.verifyWithProfile certVrfyProfile rootCa parsedCertChain with
  | .ok path => pure path
  | .error .fatal => throw .mbedTlsRuntimeError
  | .error (.verifyFailed _) => throw .mbedTlsRuntimeError

/-- The `do`-`while` loop of `VerifySign`, with the cursor at the first certificate.  After a failure
the cursor moves first and the loop asks then whether it has a next one, so a last certificate that
was moved to is not tried. -/
def verifySignFrom (hash : Hash) (sign : Bytes) : List Crt → Except Thrown Unit
  | [] => .error .invalidObject
  | curr :: next =>
    if env.x509.pkVerify curr hash.toList sign then .ok ()
    else
      match next with
      | [] => .error (.runtimeException "There is no next certificate in the chain.")
      | [_] => .error (.exception "IAS report signature verification failed")
      | second :: third :: rest => verifySignFrom hash sign (second :: third :: rest)

def verifySign (reportSet : IasReportSet) (parsedCertChain : List Crt) : Except Thrown Unit :=
  env.verifySignFrom (env.sha256 reportSet.report) reportSet.reportSign parsedCertChain

/-- The texts of `VerifyEncQuoteStatus`. -/
def allowedStatuses : List String :=
  ["OK", "GROUP_OUT_OF_DATE", "CONFIGURATION_NEEDED", "SW_HARDENING_NEEDED",
    "CONFIGURATION_AND_SW_HARDENING_NEEDED"]

def verifyEncQuoteStatus (status : String) : Except Thrown Unit :=
  if status ∈ allowedStatuses then pure ()
  else throw (.exception ("Enclave quote status is not allowed (status=" ++ status ++ ")"))

def verifyNonce (parsedReport : List (String × Json)) : Option String → Except Thrown Unit
  | none => pure ()
  | some nonce =>
    match parsedReport.lookup "nonce" with
    | none => throw (.exception "nonce field is missing from IAS report")
    | some value => do
      let text ← value.asString
      if text ≠ nonce then throw (.exception "IAS report nonce does not match") else pure ()

def verifyReport (parsedReport : List (String × Json)) (nonce : Option String) :
    Except Thrown Unit := do
  verifyNonce parsedReport nonce
  match parsedReport.lookup "isvEnclaveQuoteStatus" with
  | none => throw (.exception "Enclave quote status field is missing from IAS report")
  | some value => do
    let status ← value.asString
    verifyEncQuoteStatus status

def verifyEncQuote (parsedReport : List (String × Json)) (quoteVerifier : EpidQuoteVerifier) :
    Except Thrown Unit :=
  match parsedReport.lookup "isvEnclaveQuoteBody" with
  | none => throw (.exception "Enclave quote body field is missing from IAS report")
  | some value => do
    let body ← value.asString
    let quote ← EpidQuoteVerifier.parseQuoteFromB64 env body
    quoteVerifier.verify env quote

/-- The second half of `VerifyAndReduceReportSet`, on the bytes of the report. -/
def verifyContents (report : Bytes) (quoteVerifier : EpidQuoteVerifier) (nonce : Option String) :
    Except Thrown Unit := do
  let parsed ← env.parseJson report
  let reportDict ← parsed.asDict
  verifyReport reportDict nonce
  env.verifyEncQuote reportDict quoteVerifier

def verifyAndReduceReportSet (reportSet : IasReportSet) (quoteVerifier : EpidQuoteVerifier)
    (nonce : Option String) : Except Thrown IasReportSet := do
  let reduced ← env.shrinkCertChain reportSet
  let certChain ← env.x509CertFromDerList reduced.iasCert
  let _ ← env.verifyCert certChain
  env.verifySign reduced certChain
  env.verifyContents reduced.report quoteVerifier nonce
  pure reduced

end Env

end Decentagram.DecentEnclave
