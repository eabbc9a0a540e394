import ChainRunner.Proofs.NameMap
import ChainRunner.Watch.Pending

/-!
What is queued after a push, and after the queue has been emptied.
-/

namespace ChainRunner.Watch.Pending

variable (q : Pending) (path p : String)

@[simp] lemma mem_toList_push : p ∈ (q.push path).toList ↔ p = toSlash path ∨ p ∈ q.toList :=
  NameMap.mem_keys_insert ..

@[simp] lemma locked_push : (q.push path).locked = q.locked := rfl

theorem nodup_toList : q.toList.Nodup := NameMap.nodup_keys _

end ChainRunner.Watch.Pending
