import LineExchange.Transaction

/-!
# LineExchange.Sample

Transactions to try exchanges out with.
-/

namespace LineExchange.Sample

def ethernet : Transaction := .bypass .ethernet (.take (.ofFn ethernetLen UInt8.ofNat))

def ip : Transaction := .bypass .ip (.take (.replicate ipLen 0x45))

end LineExchange.Sample
