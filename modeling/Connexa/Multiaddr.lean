import Mathlib.Data.List.Basic

/-!
# Multiaddresses

A multiaddress is a sequence of protocol components.  The functions below are
those of `multiaddr_ext.rs` and those of the `multiaddr` crate that the
behaviours and the DNS transport rely on.
-/

namespace Connexa

/-- Peer identities, compared by their bytes; only their order matters. -/
abbrev PeerId := ℕ

/-- One component of a multiaddress. -/
inductive Protocol where
  | ip4 (address : BitVec 32)
  | ip6 (address : BitVec 128)
  | tcp (port : BitVec 16)
  | udp (port : BitVec 16)
  | dns (name : String)
  | dns4 (name : String)
  | dns6 (name : String)
  | dnsaddr (name : String)
  | p2p (peer : PeerId)
  | p2pCircuit
  | webrtcDirect
  | other (code : ℕ) (payload : List (BitVec 8))
  deriving DecidableEq

abbrev Multiaddr := List Protocol

namespace Multiaddr

/-- `MultiaddrExt::is_relayed`. -/
def isRelayed (addr : Multiaddr) : Bool :=
  addr.any (· == .p2pCircuit)

/-- The loop of `MultiaddrExt::relay_peer_id`, with the last `/p2p` seen. -/
def relayPeerIdFrom (lastP2p : Option PeerId) : Multiaddr → Option PeerId
  | [] => none
  | .p2p peer :: rest => relayPeerIdFrom (some peer) rest
  | .p2pCircuit :: _ => lastP2p
  | _ :: rest => relayPeerIdFrom lastP2p rest

/-- `MultiaddrExt::relay_peer_id`: the peer named just before the circuit. -/
def relayPeerId (addr : Multiaddr) : Option PeerId :=
  relayPeerIdFrom none addr

/-- `Multiaddr::with_p2p`: append `/p2p/peer` unless the address already ends
in it; an address that ends in another peer is returned as the error. -/
def withP2p (addr : Multiaddr) (peer : PeerId) : Except Multiaddr Multiaddr :=
  match addr.getLast? with
  | some (.p2p other) => if other = peer then .ok addr else .error addr
  | _ => .ok (addr ++ [.p2p peer])

/-- `Multiaddr::replace`: change the component at the index, if there is one and the
function gives a component to put there. -/
def replace (addr : Multiaddr) (index : ℕ) (f : Protocol → Option Protocol) :
    Option Multiaddr := do
  let current ← addr[index]?
  let new ← f current
  return addr.set index new

/-- `Multiaddr::ends_with`. -/
def endsWith (addr suffix : Multiaddr) : Bool :=
  suffix.isSuffixOf addr

/-- The address ends in `/p2p` of a peer other than `peer`. -/
def EndsInOtherPeer (addr : Multiaddr) (peer : PeerId) : Prop :=
  ∃ other, addr.getLast? = some (.p2p other) ∧ other ≠ peer

theorem withP2p_cases (addr : Multiaddr) (peer : PeerId) :
    (withP2p addr peer = .error addr ∧ EndsInOtherPeer addr peer) ∨
      withP2p addr peer = .ok addr ∨
      withP2p addr peer = .ok (addr ++ [.p2p peer]) := by
  unfold withP2p
  split
  · next other hlast =>
    by_cases hpeer : other = peer
    · exact Or.inr (Or.inl (if_pos hpeer))
    · exact Or.inl ⟨if_neg hpeer, other, hlast, hpeer⟩
  · exact Or.inr (Or.inr rfl)

theorem not_endsInOtherPeer_of_withP2p {addr full : Multiaddr} {peer : PeerId}
    (h : withP2p addr peer = .ok full) : ¬EndsInOtherPeer addr peer := by
  rintro ⟨other, hlast, hne⟩
  rw [withP2p, hlast] at h
  simp [hne] at h

/-- A completed address ends in `/p2p` of its peer. -/
theorem getLast?_withP2p {addr full : Multiaddr} {peer : PeerId}
    (h : withP2p addr peer = .ok full) : full.getLast? = some (.p2p peer) := by
  unfold withP2p at h
  split at h
  · next other hlast =>
    split at h
    · next hpeer =>
      cases h
      rw [hlast, hpeer]
    · cases h
  · cases h
    exact List.getLast?_concat

/-- Completing an address with its peer does not make it relayed. -/
theorem isRelayed_withP2p {addr full : Multiaddr} {peer : PeerId}
    (h : withP2p addr peer = .ok full) : full.isRelayed = addr.isRelayed := by
  rcases withP2p_cases addr peer with ⟨herr, -⟩ | hok | hok
  · rw [herr] at h
    cases h
  · rw [hok] at h
    cases h
    rfl
  · rw [hok] at h
    cases h
    simp [isRelayed]

/-- A component at a valid index can be replaced. -/
theorem replace_some {addr : Multiaddr} {index : ℕ} (h : index < addr.length)
    (new : Protocol) :
    addr.replace index (fun _ => some new) = some (addr.set index new) := by
  simp [replace, List.getElem?_eq_getElem h]

end Multiaddr

end Connexa
