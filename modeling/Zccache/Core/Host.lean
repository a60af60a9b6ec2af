import Zccache.Core.Hash

/-! # The host of the cache process

The hash primitive together with what the process reads once from its
environment.
-/

namespace Zccache

open Unix

variable {D : Type}

structure Host (D : Type) extends Hasher D where
  cpuIdentityMaterial : Text
  /-- `ZCCACHE_MAX_EQUIVALENT_CONTEXTS`, or 16. -/
  maxEquivalentContexts : ℕ
  maxEquivalentContexts_pos : 1 ≤ maxEquivalentContexts

/-- A host with the default limits whose digests spell their input out. -/
def Host.transparent : Host Text where
  toHasher := .transparent
  cpuIdentityMaterial := "cpu"
  maxEquivalentContexts := 16
  maxEquivalentContexts_pos := by decide

def hostCpuIdentitySaltFrom (H : Hasher D) (identity : Text) : Text :=
  H.toHex (H.digest (framed [text "zccache-native-cpu-host-v1"] ++ text identity))

def hostCpuIdentitySalt (H : Host D) : Text :=
  hostCpuIdentitySaltFrom H.toHasher H.cpuIdentityMaterial

def isCxxNativeCpuFlag (flag : Text) : Bool :=
  flag == "-march=native" || flag == "-mtune=native" ||
    flag == "-mcpu=native"

end Zccache
