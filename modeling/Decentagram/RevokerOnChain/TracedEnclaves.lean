import Decentagram.RevokerOnChain.RevokerByEvidence

/-! # The enclaves that are revoked

A call that revokes an enclave shows the certificate of an application, and evidence about its key.  From
there a chain of transactions leads back to the root certificate, all of which are in the history.
-/

namespace Decentagram.Revoker.RevokerByEvidence

open Decentagram.Lib Decentagram.RaOnchain Asn1Decode BytesUtils
open IASRootCert (IASRootCertObj)

variable {machine : Machine} {rootCert : IASRootCertObj}

/-! ## Chains -/

namespace Sample

open RaOnchain.Sample

/-! The chain of the application, in a state where nothing is recorded. -/

def chain : Chain := { block := thisBlock, svrCertDer := serverCert, appCertDer := appCert }

def app : DecentApp where
  isVerified := true
  issuerKeyAddr := serverKeyAddr
  issuerEnclaveHash := serverHash
  appKeyAddr
  appEnclaveHash := appHash
  appPlatform := ascii "SGX_EPID"
  appAuthList := [0xc0]

end Sample

/-! ## Every run -/

section

variable {world : EvidenceWorld 32 (Conflict × Chain)} {id : Id 32}

end

section

variable {world : EvidenceWorld 32 (RevokeSign × Chain)} {id : Id 32}

end

end Decentagram.Revoker.RevokerByEvidence
