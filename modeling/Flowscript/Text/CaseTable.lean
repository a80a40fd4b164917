import Flowscript.Text.Spans

/-!
# Case of characters

The case mappings and case classes of Unicode 14 above ASCII. A mapping row `(lo, hi, stride, d)`
adds `d` to the code of `lo`, `lo + stride`, …, `hi`; the few characters whose mapping is longer
than one character are listed apart.
-/

namespace Flowscript.Text

/-- Mapping rows behind a code, by the way to each, its steps, its stride and what it adds. -/
def shiftsFrom (code : Nat) : List (Nat × Nat × Nat × Int) → List (Nat × Nat × Nat × Int)
  | [] => []
  | (gap, steps, stride, d) :: rest =>
    let hi := code + gap + steps * stride
    (code + gap, hi, stride, d) :: shiftsFrom hi rest

def upperShifts : List (Nat × Nat × Nat × Int) := shiftsFrom 128 [
  (53,0,1,743),(43,22,1,-32),(2,6,1,-32),(1,0,1,121),(2,23,2,-1),(2,0,1,-232),(2,2,2,-1),(3,7,2,-1),
  (3,22,2,-1),(3,2,2,-1),(1,0,1,-300),(1,0,1,195),(3,1,2,-1),(3,0,1,-1),(4,0,1,-1),(6,0,1,-1),
  (3,0,1,97),(4,0,1,-1),(1,0,1,163),(4,0,1,130),(3,2,2,-1),(3,0,1,-1),(5,0,1,-1),(3,0,1,-1),(4,1,2,-1),
  (3,0,1,-1),(4,0,1,-1),(2,0,1,56),(6,0,1,-1),(1,0,1,-2),(2,0,1,-1),(1,0,1,-2),(2,0,1,-1),(1,0,1,-2),
  (2,7,2,-1),(1,0,1,-79),(2,8,2,-1),(3,0,1,-1),(1,0,1,-2),(2,0,1,-1),(4,19,2,-1),(4,8,2,-1),(9,0,1,-1),
  (3,1,1,10815),(2,0,1,-1),(5,4,2,-1),(1,0,1,10783),(1,0,1,10780),(1,0,1,10782),(1,0,1,-210),
  (1,0,1,-206),(2,1,1,-205),(2,0,1,-202),(2,0,1,-203),(1,0,1,42319),(4,0,1,-205),(1,0,1,42315),
  (2,0,1,-207),(2,0,1,42280),(1,0,1,42308),(2,0,1,-209),(1,0,1,-211),(1,0,1,42308),(1,0,1,10743),
  (1,0,1,42305),(3,0,1,-211),(2,0,1,10749),(1,0,1,-213),(3,0,1,-214),(8,0,1,10727),(3,0,1,-218),
  (2,0,1,42307),(1,0,1,-218),(4,0,1,42282),(1,0,1,-218),(1,0,1,-69),(1,1,1,-217),(1,0,1,-71),
  (6,0,1,-219),(11,0,1,42261),(1,0,1,42258),(167,0,1,84),(44,1,2,-1),(4,0,1,-1),(4,2,1,130),
  (47,0,1,-38),(1,2,1,-37),(2,16,1,-32),(1,0,1,-31),(1,8,1,-32),(1,0,1,-64),(1,1,1,-63),(2,0,1,-62),
  (1,0,1,-57),(4,0,1,-47),(1,0,1,-54),(1,0,1,-8),(2,11,2,-1),(1,0,1,-86),(1,0,1,-80),(1,0,1,7),
  (1,0,1,-116),(2,0,1,-96),(3,0,1,-1),(3,0,1,-1),(53,31,1,-32),(1,15,1,-80),(2,16,2,-1),(10,26,2,-1),
  (3,6,2,-1),(1,0,1,-15),(2,47,2,-1),(50,37,1,-48),(2890,42,1,3008),(3,2,1,3008),(761,5,1,-8),
  (2179,0,1,-6254),(1,0,1,-6253),(1,0,1,-6244),(1,1,1,-6242),(1,0,1,-6243),(1,0,1,-6236),(1,0,1,-6181),
  (1,0,1,35266),(241,0,1,35332),(4,0,1,3814),(17,0,1,35384),(115,74,2,-1),(6,0,1,-59),(6,47,2,-1),
  (1,7,1,8),(9,5,1,8),(11,7,1,8),(9,7,1,8),(9,5,1,8),(12,3,2,8),(9,7,1,8),(9,1,1,74),(1,3,1,86),
  (1,1,1,100),(1,1,1,128),(1,1,1,112),(1,1,1,126),(51,1,1,8),(13,0,1,-7205),(18,1,1,8),(15,1,1,8),
  (4,0,1,7),(361,0,1,-28),(34,15,1,-16),(5,0,1,-1),(844,25,1,-26),(1863,47,1,-48),(2,0,1,-1),
  (4,0,1,-10795),(1,0,1,-10792),(2,2,2,-1),(7,0,1,-1),(3,0,1,-1),(11,49,2,-1),(9,1,2,-1),(5,0,1,-1),
  (13,37,1,-7264),(2,0,1,-7264),(6,0,1,-7264),(30996,22,2,-1),(20,13,2,-1),(136,6,2,-1),(4,30,2,-1),
  (11,1,2,-1),(3,4,2,-1),(5,0,1,-1),(5,1,2,-1),(1,0,1,48),(3,9,2,-1),(12,7,2,-1),(5,1,2,-1),(7,0,1,-1),
  (6,1,2,-1),(29,0,1,-1),(861,0,1,-928),(29,79,1,-38864),(21378,25,1,-32),(1230,39,1,-40),
  (137,35,1,-40),(156,10,1,-39),(2,14,1,-39),(2,6,1,-39),(2,1,1,-39),(1796,50,1,-64),(3022,31,1,-32),
  (21889,31,1,-32),(31395,33,1,-34)]

def upperExpansions : List (Nat × List Nat) := [
  (223,[83,83]),(329,[700,78]),(496,[74,780]),(912,[921,776,769]),(944,[933,776,769]),
  (1415,[1333,1362]),(7830,[72,817]),(7831,[84,776]),(7832,[87,778]),(7833,[89,778]),(7834,[65,702]),
  (8016,[933,787]),(8018,[933,787,768]),(8020,[933,787,769]),(8022,[933,787,834]),(8064,[7944,921]),
  (8065,[7945,921]),(8066,[7946,921]),(8067,[7947,921]),(8068,[7948,921]),(8069,[7949,921]),
  (8070,[7950,921]),(8071,[7951,921]),(8072,[7944,921]),(8073,[7945,921]),(8074,[7946,921]),
  (8075,[7947,921]),(8076,[7948,921]),(8077,[7949,921]),(8078,[7950,921]),(8079,[7951,921]),
  (8080,[7976,921]),(8081,[7977,921]),(8082,[7978,921]),(8083,[7979,921]),(8084,[7980,921]),
  (8085,[7981,921]),(8086,[7982,921]),(8087,[7983,921]),(8088,[7976,921]),(8089,[7977,921]),
  (8090,[7978,921]),(8091,[7979,921]),(8092,[7980,921]),(8093,[7981,921]),(8094,[7982,921]),
  (8095,[7983,921]),(8096,[8040,921]),(8097,[8041,921]),(8098,[8042,921]),(8099,[8043,921]),
  (8100,[8044,921]),(8101,[8045,921]),(8102,[8046,921]),(8103,[8047,921]),(8104,[8040,921]),
  (8105,[8041,921]),(8106,[8042,921]),(8107,[8043,921]),(8108,[8044,921]),(8109,[8045,921]),
  (8110,[8046,921]),(8111,[8047,921]),(8114,[8122,921]),(8115,[913,921]),(8116,[902,921]),
  (8118,[913,834]),(8119,[913,834,921]),(8124,[913,921]),(8130,[8138,921]),(8131,[919,921]),
  (8132,[905,921]),(8134,[919,834]),(8135,[919,834,921]),(8140,[919,921]),(8146,[921,776,768]),
  (8147,[921,776,769]),(8150,[921,834]),(8151,[921,776,834]),(8162,[933,776,768]),(8163,[933,776,769]),
  (8164,[929,787]),(8166,[933,834]),(8167,[933,776,834]),(8178,[8186,921]),(8179,[937,921]),
  (8180,[911,921]),(8182,[937,834]),(8183,[937,834,921]),(8188,[937,921]),(64256,[70,70]),
  (64257,[70,73]),(64258,[70,76]),(64259,[70,70,73]),(64260,[70,70,76]),(64261,[83,84]),(64262,[83,84]),
  (64275,[1348,1350]),(64276,[1348,1333]),(64277,[1348,1339]),(64278,[1358,1350]),(64279,[1348,1341])]

def lowerShifts : List (Nat × Nat × Nat × Int) := shiftsFrom 128 [
  (64,22,1,32),(2,6,1,32),(34,23,2,1),(4,2,2,1),(3,7,2,1),(3,22,2,1),(2,0,1,-121),(1,2,2,1),(4,0,1,210),
  (1,1,2,1),(2,0,1,206),(1,0,1,1),(2,1,1,205),(1,0,1,1),(3,0,1,79),(1,0,1,202),(1,0,1,203),(1,0,1,1),
  (2,0,1,205),(1,0,1,207),(2,0,1,211),(1,0,1,209),(1,0,1,1),(4,0,1,211),(1,0,1,213),(2,0,1,214),
  (1,2,2,1),(2,0,1,218),(1,0,1,1),(2,0,1,218),(3,0,1,1),(2,0,1,218),(1,0,1,1),(2,1,1,217),(1,1,2,1),
  (2,0,1,219),(1,0,1,1),(4,0,1,1),(8,0,1,2),(1,0,1,1),(2,0,1,2),(1,0,1,1),(2,0,1,2),(1,8,2,1),(3,8,2,1),
  (3,0,1,2),(1,1,2,1),(2,0,1,-97),(1,0,1,-56),(1,19,2,1),(2,0,1,-130),(2,8,2,1),(8,0,1,10795),(1,0,1,1),
  (2,0,1,-163),(1,0,1,10792),(3,0,1,1),(2,0,1,-195),(1,0,1,69),(1,0,1,71),(1,4,2,1),(290,1,2,1),
  (4,0,1,1),(9,0,1,116),(7,0,1,38),(2,2,1,37),(2,0,1,64),(2,1,1,63),(2,16,1,32),(2,8,1,32),(36,0,1,8),
  (9,11,2,1),(6,0,1,-60),(3,0,1,1),(2,0,1,-7),(1,0,1,1),(3,2,1,-130),(1,15,1,80),(1,31,1,32),
  (49,16,2,1),(10,26,2,1),(2,0,1,15),(1,6,2,1),(3,47,2,1),(3,37,1,48),(2890,37,1,7264),(2,0,1,7264),
  (6,0,1,7264),(723,79,1,38864),(1,5,1,8),(2203,42,1,-3008),(3,2,1,-3008),(321,74,2,1),(10,0,1,-7615),
  (2,47,2,1),(10,7,1,-8),(9,5,1,-8),(11,7,1,-8),(9,7,1,-8),(9,5,1,-8),(12,3,2,-8),(9,7,1,-8),
  (25,7,1,-8),(9,7,1,-8),(9,7,1,-8),(9,1,1,-8),(1,1,1,-74),(1,0,1,-9),(12,3,1,-86),(1,0,1,-9),
  (12,1,1,-8),(1,1,1,-100),(13,1,1,-8),(1,1,1,-112),(1,0,1,-7),(12,1,1,-128),(1,1,1,-126),(1,0,1,-9),
  (298,0,1,-7517),(4,0,1,-8383),(1,0,1,-8262),(7,0,1,28),(46,15,1,16),(20,0,1,1),(819,25,1,26),
  (1841,47,1,48),(49,0,1,1),(2,0,1,-10743),(1,0,1,-3814),(1,0,1,-10727),(3,2,2,1),(2,0,1,-10780),
  (1,0,1,-10749),(1,0,1,-10783),(1,0,1,-10782),(2,0,1,1),(3,0,1,1),(9,1,1,-10815),(1,49,2,1),(9,1,2,1),
  (5,0,1,1),(31054,22,2,1),(20,13,2,1),(136,6,2,1),(4,30,2,1),(11,1,2,1),(2,0,1,-35332),(1,4,2,1),
  (5,0,1,1),(2,0,1,-42280),(3,1,2,1),(4,9,2,1),(2,0,1,-42308),(1,0,1,-42319),(1,0,1,-42315),
  (1,0,1,-42305),(1,0,1,-42308),(2,0,1,-42258),(1,0,1,-42282),(1,0,1,-42261),(1,0,1,928),(1,7,2,1),
  (2,0,1,-48),(1,0,1,-42307),(1,0,1,-35384),(1,1,2,1),(7,0,1,1),(6,1,2,1),(29,0,1,1),(22316,25,1,32),
  (1222,39,1,40),(137,35,1,40),(157,10,1,39),(2,14,1,39),(2,6,1,39),(2,1,1,39),(1771,50,1,64),
  (3054,31,1,32),(21889,31,1,32),(31393,33,1,34)]

def lowerExpansions : List (Nat × List Nat) := [
  (304,[105,775])]

def upperSpans : List (Nat × Nat × Nat) := stridedSpansFrom 128 [
  64,22,1,2,6,1,34,27,2,3,7,2,3,23,2,1,2,2,4,1,1,2,1,2,1,1,2,1,1,1,3,3,1,2,1,1,2,2,1,4,1,1,2,1,1,2,2,2,
  1,1,2,3,1,2,1,1,2,1,1,1,2,1,2,1,0,1,4,0,1,8,0,1,3,0,1,3,0,1,3,7,2,3,8,2,3,0,1,3,1,2,1,1,1,2,28,2,8,1,
  1,2,1,1,3,1,2,1,2,1,2,3,2,290,1,2,4,0,1,9,0,1,7,1,2,1,1,1,2,1,2,1,1,2,1,15,1,2,8,1,36,0,1,3,2,1,4,11,
  2,6,0,1,3,1,2,1,0,1,3,50,1,49,16,2,10,27,2,1,6,2,3,47,2,3,37,1,2890,37,1,2,0,1,6,0,1,723,85,1,2203,42,
  1,3,2,1,321,74,2,10,48,2,10,7,1,9,5,1,11,7,1,9,7,1,9,5,1,12,3,2,9,7,1,73,3,1,13,3,1,13,3,1,13,4,1,12,
  3,1,263,0,1,5,0,1,4,2,1,3,2,1,3,0,1,4,4,1,7,3,2,1,2,1,3,3,1,11,1,1,6,0,1,27,15,1,20,0,1,819,25,1,1841,
  47,1,49,1,2,1,1,1,3,3,2,1,2,1,2,0,1,3,0,1,9,2,1,2,48,2,9,1,2,5,0,1,31054,22,2,20,13,2,136,6,2,4,30,2,
  11,2,2,1,4,2,5,1,2,3,1,2,4,10,2,1,3,1,2,4,1,2,7,2,1,2,1,2,0,1,7,0,1,6,1,2,29,0,1,22316,25,1,1222,39,1,
  137,35,1,157,10,1,2,14,1,2,6,1,2,1,1,1771,50,1,3054,31,1,21889,31,1,26017,25,1,27,25,1,27,25,1,27,1,2,
  1,0,1,3,0,1,3,1,1,3,3,1,2,7,1,27,25,1,27,1,1,2,3,1,3,7,1,2,6,1,28,1,1,2,3,1,2,4,1,2,0,1,4,6,1,28,25,1,
  27,25,1,27,25,1,27,25,1,27,25,1,27,25,1,31,24,1,34,24,1,34,24,1,34,24,1,34,24,1,34,0,1,4406,33,1,2063,
  25,1,7,25,1,7,25,1]

def smallSpans : List (Nat × Nat × Nat) := stridedSpansFrom 128 [
  42,0,1,11,0,1,5,0,1,37,23,1,2,7,1,2,27,2,1,8,2,1,23,2,3,2,2,1,1,1,3,1,2,3,0,1,4,1,1,5,0,1,3,0,1,4,2,1,
  3,0,1,3,2,2,3,1,2,1,1,2,3,0,1,4,1,2,3,1,1,3,2,1,6,1,1,2,1,1,2,1,1,2,7,2,1,9,2,1,1,2,1,1,2,4,29,2,1,5,
  1,3,0,1,3,1,1,2,0,1,5,4,2,1,67,1,2,35,1,8,1,1,31,4,1,97,0,1,44,1,2,4,0,1,3,3,1,19,0,1,28,34,1,2,1,1,4,
  2,1,2,11,2,1,3,1,2,0,1,3,0,1,3,1,1,52,47,1,2,16,2,10,26,2,3,6,2,1,48,2,49,40,1,2888,42,1,3,2,1,761,5,
  1,2179,8,1,120,191,1,66,74,2,1,7,1,2,48,2,1,7,1,9,5,1,11,7,1,9,7,1,9,5,1,11,7,1,9,7,1,9,13,1,3,52,1,2,
  1,1,5,1,2,4,2,1,2,1,1,5,0,1,4,3,1,3,1,1,9,7,1,11,2,1,2,1,1,5,0,1,117,0,1,14,0,1,17,12,1,110,0,1,4,1,1,
  4,0,1,28,0,1,5,0,1,5,0,1,3,1,1,9,3,1,5,0,1,34,15,1,5,0,1,844,25,1,1863,47,1,2,0,1,4,1,1,2,2,2,5,1,2,1,
  1,2,1,6,1,4,49,2,1,0,1,8,1,2,5,0,1,13,37,1,2,0,1,6,0,1,30996,22,2,20,13,2,1,1,1,134,6,2,1,1,1,2,30,2,
  1,8,1,2,1,2,3,4,2,5,1,2,3,1,2,1,1,1,2,9,2,6,0,1,6,7,2,5,1,2,7,4,2,29,1,2,1,1,1,822,42,1,2,12,1,8,79,1,
  20289,6,1,13,4,1,1066,25,1,1230,39,1,137,35,1,156,10,1,2,14,1,2,6,1,2,1,1,452,0,1,3,2,1,2,41,1,2,8,1,
  1286,50,1,3022,31,1,21889,31,1,26011,25,1,27,6,1,2,17,1,27,25,1,27,3,1,2,1,2,1,5,1,2,10,1,27,25,1,27,
  25,1,27,25,1,27,25,1,27,25,1,27,25,1,27,25,1,27,25,1,27,27,1,29,24,1,2,5,1,27,24,1,2,5,1,27,24,1,2,5,
  1,27,24,1,2,5,1,27,24,1,2,5,1,2,0,1,1845,9,1,2,19,1,2564,33,1]

/-- Characters that carry case and so stop the search around a sigma. -/
def wordSpans : List (Nat × Nat × Nat) := stridedSpansFrom 128 [
  42,0,1,11,0,1,5,0,1,6,22,1,2,30,1,2,194,1,2,3,1,5,207,1,2,26,1,193,3,1,3,1,1,4,2,1,2,0,1,7,1,2,1,1,1,
  2,1,2,1,18,1,2,82,1,2,138,1,9,165,1,2,37,1,10,40,1,2840,37,1,2,0,1,6,0,1,3,42,1,3,2,1,673,85,1,3,5,1,
  2179,8,1,8,42,1,3,2,1,65,43,1,64,12,1,2,33,1,102,277,1,3,5,1,3,37,1,3,5,1,3,7,1,2,3,2,1,29,1,3,52,1,2,
  6,1,2,0,1,4,2,1,2,6,1,4,3,1,3,5,1,5,12,1,6,2,1,2,6,1,262,0,1,5,0,1,3,9,1,2,0,1,4,4,1,7,3,2,1,2,1,2,5,
  1,5,0,1,3,3,1,6,4,1,5,0,1,18,31,1,4,1,1,818,51,1,1815,123,1,3,102,1,7,3,1,4,1,1,13,37,1,2,0,1,6,0,1,
  30995,45,1,19,27,1,135,77,1,2,22,1,4,3,1,2,58,1,6,1,1,2,1,2,1,3,1,28,1,1,4,0,1,822,42,1,6,8,1,8,79,1,
  20289,6,1,13,4,1,1034,25,1,7,25,1,1190,79,1,97,35,1,5,35,1,117,10,1,2,14,1,2,6,1,2,1,1,2,10,1,2,14,1,
  2,6,1,2,1,1,1732,50,1,14,50,1,2990,63,1,21857,63,1,25985,84,1,2,70,1,2,1,1,3,0,1,3,1,1,3,3,1,2,11,1,2,
  1,2,1,5,1,2,64,1,2,3,1,3,7,1,2,6,1,2,27,1,2,3,1,2,4,1,2,0,1,4,6,1,2,339,1,3,24,1,2,24,1,2,30,1,2,24,1,
  2,30,1,2,24,1,2,30,1,2,24,1,2,30,1,2,24,1,2,7,1,1845,9,1,2,19,1,2530,67,1,2029,25,1,7,25,1,7,25,1]

/-- Characters that the search around a sigma passes over. -/
def skippedSpans : List (Nat × Nat × Nat) := stridedSpansFrom 128 [
  40,0,1,5,1,2,5,0,1,3,1,1,504,191,1,5,1,1,5,0,1,10,1,1,2,0,1,252,6,1,208,0,1,6,0,1,50,44,1,2,1,2,1,1,2,
  1,1,2,45,0,1,12,5,1,11,10,1,2,0,1,36,0,1,11,20,1,17,0,1,102,7,1,2,9,1,2,3,1,34,1,2,31,26,1,92,10,1,59,
  10,1,5,0,1,3,0,1,25,23,1,44,2,1,45,0,1,8,1,1,7,7,1,42,57,1,56,1,2,5,7,1,5,0,1,4,6,1,11,1,1,14,0,1,16,
  0,1,59,0,1,5,3,1,9,0,1,21,1,1,27,0,1,3,1,1,58,0,1,5,1,1,5,1,1,3,2,1,4,0,1,31,1,1,4,0,1,12,1,1,58,0,1,
  5,4,1,2,1,1,5,0,1,21,1,1,23,5,1,2,0,1,59,0,1,3,1,2,1,2,1,9,0,1,8,1,1,12,1,1,31,0,1,62,0,1,13,0,1,51,0,
  1,4,0,1,56,1,2,1,1,1,6,2,1,2,3,1,8,1,1,12,1,1,30,0,1,59,0,1,3,0,1,7,0,1,6,1,1,21,1,1,29,1,1,58,1,1,5,
  3,1,9,0,1,21,1,1,30,0,1,73,0,1,8,2,1,2,0,1,91,0,1,3,6,1,12,8,1,99,0,1,3,8,1,10,1,2,1,4,1,75,1,1,28,2,
  2,56,13,1,2,4,1,2,1,1,6,10,1,2,35,1,10,0,1,103,3,1,2,5,1,2,1,1,3,1,1,26,1,1,5,2,1,17,3,1,14,0,1,3,1,1,
  7,0,1,16,0,1,95,0,1,609,2,1,947,2,1,30,1,1,31,1,1,31,1,1,65,1,1,2,6,1,9,0,1,3,10,1,4,0,1,6,0,1,46,4,1,
  52,0,1,66,1,1,35,0,1,119,2,1,5,1,1,10,0,1,7,2,1,220,1,1,3,0,1,59,1,2,1,5,1,2,1,2,3,7,1,7,9,1,3,0,1,40,
  0,1,9,30,1,50,3,1,49,1,2,1,3,1,2,0,1,6,0,1,41,8,1,13,1,1,33,3,1,3,1,1,2,2,1,57,1,2,1,0,1,4,1,2,1,1,1,
  59,7,1,3,1,1,65,5,1,83,2,1,2,12,1,2,6,1,5,0,1,7,0,1,4,1,1,51,62,1,14,0,1,35,100,1,446,1,2,1,1,1,12,2,
  1,14,2,1,14,2,1,14,1,1,13,4,1,9,1,1,11,0,1,3,0,1,3,4,1,50,4,1,2,9,1,2,0,1,14,0,1,17,12,1,52,32,1,2956,
  1,1,114,2,1,126,0,1,16,0,1,97,31,1,48,0,1,470,0,1,37,3,1,4,4,1,6,0,1,94,5,1,94,2,1,28439,0,1,1251,5,1,
  271,0,1,99,3,1,2,9,1,2,0,1,29,3,1,81,1,1,15,33,1,79,0,1,24,2,1,104,2,1,4,1,1,9,0,1,4,0,1,5,0,1,26,1,1,
  6,0,1,152,1,1,27,17,1,14,0,1,39,7,1,26,10,1,47,2,1,49,0,1,3,3,1,3,1,1,18,0,1,22,1,1,67,5,1,3,1,1,3,1,
  1,13,0,1,9,0,1,36,0,1,12,0,1,52,1,2,1,1,1,3,1,1,6,1,1,2,0,1,28,0,1,15,1,1,6,1,1,2,0,1,101,4,1,10,2,1,
  122,0,1,3,0,1,5,0,1,20273,0,1,148,16,1,574,15,1,4,0,1,13,15,1,35,0,1,3,0,1,170,0,1,8,0,1,7,0,1,12,0,1,
  36,1,2,48,0,1,46,1,1,68,0,1,22,2,1,514,0,1,227,0,1,150,4,1,1030,5,1,2,41,1,2,8,1,583,2,1,2,1,1,6,3,1,
  41,2,1,5,0,1,166,1,1,574,3,1,388,1,1,154,10,1,50,3,1,124,0,1,55,14,1,42,0,1,3,1,1,11,2,1,50,3,1,3,1,1,
  3,0,1,5,0,1,11,0,1,51,2,1,37,4,1,2,7,1,63,0,1,13,1,1,53,8,1,11,3,1,3,0,1,96,2,1,3,1,2,1,0,1,7,0,1,161,
  0,1,4,7,1,22,1,1,58,1,1,4,0,1,38,6,1,4,4,1,196,7,1,3,2,1,2,0,1,24,0,1,85,5,1,2,0,1,5,1,1,2,1,1,239,3,
  1,7,1,1,2,1,1,28,1,1,86,7,1,3,1,2,1,0,1,107,1,2,3,5,1,2,0,1,102,2,1,3,3,1,2,4,1,260,8,1,2,1,1,257,1,1,
  2,0,1,5,0,1,145,3,1,3,1,1,5,0,1,33,9,1,41,5,1,3,3,1,9,0,1,10,5,1,3,2,1,47,12,1,2,1,1,407,6,1,2,5,1,2,
  0,1,83,21,1,3,6,1,2,1,1,2,1,1,123,5,1,4,1,2,1,1,2,1,5,1,2,0,1,73,1,1,4,1,2,348,1,1,5436,8,1,14008,4,1,
  60,6,1,10,3,1,1036,0,1,64,16,1,65,1,1,2,1,1,16396,3,1,2,6,1,2,1,1,3231,1,1,2,3,1,4701,45,1,3,22,1,545,
  2,1,10,15,1,3,6,1,31,3,1,149,2,1,1980,54,1,5,49,1,9,0,1,15,0,1,23,4,1,2,14,1,1361,6,1,2,16,1,3,6,1,2,
  1,1,2,4,1,262,13,1,369,0,1,62,3,1,1505,6,1,110,7,1,2736,4,1,789506,0,1,31,95,1,129,239,1]

end Flowscript.Text
