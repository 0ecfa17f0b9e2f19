import BFTDiagnosis.Honeybadger.Message

/-!
# The network and the common coin

What a node knows about the network, and the threshold signature whose parity is the coin of an epoch.
`none` stands for a panic.
-/

namespace BFTDiagnosis.Honeybadger

structure Network where
  id : String
  connectedNodes : HashMap ℕ String
  peerNum : ℕ
  faultNum : ℕ
  faultNum_le : faultNum ≤ peerNum
  isConsensusNode : Bool
  secretKeyShare : Option SecretKeyShare
  publicKeyShare : Option PublicKeyShare
  publicKeyShares : HashMap String PublicKeyShare
  publicKeySet : Option PublicKeySet

namespace Network

variable (X : Externals)

/-- The nodes are numbered in the order given; the shares are handed out in the order of the numbers. -/
def new (id : String) (isConsensusNode : Bool) (sks : Option SecretKeyShare) (pk : Option PublicKeyShare)
    (pks : Option PublicKeySet) (connectedPeers : List String) : Option Network := do
  let nodes := connectedPeers.zipIdx.map Prod.swap
  guard (nodes = [] ∨ pks.isSome)
  return {
    id
    connectedNodes := HashMap.ofEntries nodes
    peerNum := 4
    faultNum := 1
    faultNum_le := by decide
    isConsensusNode
    secretKeyShare := sks
    publicKeyShare := pk
    publicKeyShares := nodes.foldl
      (fun shares node ↦ HashMap.insertNew shares node.2 (X.publicKeyShare (pks.getD []) node.1)) ∅
    publicKeySet := pks }

def getFaultNum (network : Network) : ℕ := network.faultNum

def numHonest (network : Network) : ℕ := network.peerNum - network.faultNum

def getPublicKeyShare (network : Network) (id : String) : Option PublicKeyShare :=
  network.publicKeyShares.lookup id

/-- The number of a peer, the last one met if there are several. -/
def indexOf (network : Network) (source : String) : ℕ :=
  (X.nodes.order network.connectedNodes.entrySet).foldl
    (fun id node ↦ if node.2 = source then node.1 else id) 9999

end Network

structure ThresholdSign where
  netinfo : Network
  sigshareReceived : HashMap String (ℕ × SignatureShare)
  hadInput : Bool
  terminated : Bool

namespace ThresholdSign

variable (X : Externals)

def new (netinfo : Network) : ThresholdSign where
  netinfo := netinfo
  sigshareReceived := ∅
  hadInput := false
  terminated := false

def checkShare (ts : ThresholdSign) (id : String) (msg : SigMessage) : Bool :=
  match ts.netinfo.getPublicKeyShare id with
  | some pk => X.verifyShare pk msg.share "coin"
  | none => false

def combineAndVerifySig (ts : ThresholdSign) : Option (Option Signature) := do
  let pks ← ts.netinfo.publicKeySet
  let shares := (X.shares.order ts.sigshareReceived.entrySet).map Prod.snd
  let sig ← X.combineSignatures pks shares
  return if X.verify (X.publicKey pks) sig "coin" then some sig else none

/-- `sign` of an instance that has terminated, which does not handle the share that it signs. -/
def signTerminated (ts : ThresholdSign) : Option (ThresholdSign × Option SigMessage) :=
  if ts.hadInput then some (ts, none)
  else do
    let sks ← ts.netinfo.secretKeyShare
    return ({ ts with hadInput := true }, some ⟨X.sign sks "coin"⟩)

def tryOutput (ts : ThresholdSign) : Option (ThresholdSign × Option Signature) :=
  if ts.terminated = false ∧ ts.netinfo.getFaultNum < ts.sigshareReceived.len then do
    let sig ← ts.combineAndVerifySig X
    let (ts, _) ← { ts with terminated := true }.signTerminated X
    return (ts, sig)
  else some (ts, none)

def handleMessage (ts : ThresholdSign) (source : String) (message : SigMessage) :
    Option (ThresholdSign × Option Signature) :=
  if ts.terminated then some (ts, none)
  else if ts.checkShare X source message = false then some (ts, none)
  else
    let id := ts.netinfo.indexOf X source
    let received := if id ≠ 9999 then ts.sigshareReceived.insert source (id, message.share)
      else ts.sigshareReceived
    { ts with sigshareReceived := received }.tryOutput X

/-- Sign with the own share and handle it as if it had been received. -/
def sign (ts : ThresholdSign) : Option (ThresholdSign × Option SigMessage) :=
  if ts.hadInput then some (ts, none)
  else do
    let sks ← ts.netinfo.secretKeyShare
    let msg : SigMessage := ⟨X.sign sks "coin"⟩
    let (ts, _) ← { ts with hadInput := true }.handleMessage X ts.netinfo.id msg
    return (ts, some msg)

/-- The call of `sign` in `try_output` is one of an instance that has terminated. -/
theorem sign_of_terminated {ts : ThresholdSign} (h : ts.terminated = true) :
    ts.sign X = ts.signTerminated X := by
  unfold sign signTerminated handleMessage
  simp [h]

end ThresholdSign

end BFTDiagnosis.Honeybadger
