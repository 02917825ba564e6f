import OnceProxy.Store.Memory
import OnceProxy.Store.Records

/-!
# Backends

What requests need of a store, from memory or from shared records.
-/

namespace OnceProxy

/-- What requests need of a store with states `σ`. The operations are told the time. -/
structure Backend (σ : Type) where
  tryAcquire : σ → Nat → IdempotencyKey → Option Lease × σ
  peek : σ → Nat → IdempotencyKey → Except ProxyError (Option Envelope)
  store : σ → Nat → IdempotencyKey → Lease → Envelope → Except ProxyError Unit × σ
  release : σ → Nat → IdempotencyKey → Lease → σ

namespace Backend

/-- Entries in memory. Their time to live is kept by timers. -/
def memory : Backend MemoryStore where
  tryAcquire := MemoryStore.tryAcquire
  peek m _ key := m.peek key
  store := MemoryStore.store
  release m _ key lease := m.release key lease

/-- Shared records, which know when they expire. -/
def records : Backend RecordStore where
  tryAcquire := RecordStore.tryAcquire
  peek := RecordStore.peek
  store := RecordStore.store
  release := RecordStore.release

end Backend

end OnceProxy
