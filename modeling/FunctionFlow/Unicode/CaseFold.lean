import FunctionFlow.Unicode.CharSet

/-!
Contract: characters that differ in case only.

Variants are those of simple case folding: one character for one character.
-/

namespace FunctionFlow

def caseShifts : List (Nat × String) := [
  (1,
    "101 2x17 4 2 2 3 2x7 3 2x16 3 2 2 5 2 3 4 6 7 8 2 2 3 5 3 4 2 3 4 8 3x3 2x7 3 2x8 3 3 4 2x13
    4 2x8 9 6 5 2x4 122 2 4 62 2xb 9 3 66 2x10 a 2x1a 3 2x6 3 2x2f 175b 177 2x4a c 2x2f 285 add 7
    2 2 7 3 b 2x31 9 2 5 794e 2x4 4 2x10 14 2xd 88 2x6 4 2x1e b 2 3 2x4 5 5 2 4 2x9 c 2x7 5 2 3 4
    6 2 2 1b 5310"),
  (2, "1c6 3 3 27"), (7, "3f9 1bf3"),
  (8, "3d7 1021-5 b0b-7 9-5 b-7 9-7 9-5 c 2x3 9-7 19-7 9-7x2 9-1 1f-1 f-1"), (9, "1fbc 10 30"),
  (15, "4cf"), (16, "2170-f"), (26, "24d0-19"), (28, "214e"), (31, "3c2"),
  (32, "61-19 66-16 2-6 2b3-7 2-1 2-4 2-8 65-1f faf2-19 e16-15 b3b-1f 5581-1f"), (34, "1e922-21"),
  (37, "3ad-2"), (38, "3ac"), (39, "10597-a 2-e 2-6 2-1"), (40, "10428-27 89-23"), (47, "3d5"),
  (48, "561-25 26aa-2f 7b65"), (54, "3d6"), (56, "1f7"), (57, "3d1"), (59, "1e9b"), (62, "3d0"),
  (63, "3cd-1"), (64, "3cc 108f4-32"), (69, "289"), (71, "28c"), (74, "1fba-1"), (79, "1dd"),
  (80, "3f1 5f-f"), (84, "399"), (86, "3f0 1bd8-3"), (92, "3f4"), (96, "3f5"), (97, "1f6"),
  (100, "1fda-1"), (112, "1fea-1"), (116, "3b9 3a"), (121, "178"), (126, "1ffa-1"), (128, "1ff8-1"),
  (130, "220 1dd-2"), (163, "23d"), (195, "243"), (202, "259"), (203, "25b"), (205, "256-1 9"),
  (206, "254"), (207, "263"), (209, "268"), (210, "253"), (211, "269 6"), (213, "272"),
  (214, "275"), (217, "28a-1"), (218, "280 3 5"), (219, "292"), (300, "17f"), (743, "39c"),
  (775, "3bc"), (928, "ab53"), (3008, "1c90-2a 3-2"), (3814, "2c63"), (6181, "1c87"),
  (6236, "1c86"), (6242, "1c83-1"), (6243, "1c85"), (6244, "1c82"), (6253, "1c81"), (6254, "1c80"),
  (7219, "1fe3"), (7235, "1fd3"), (7264, "2d00-25 2 6"), (7289, "1fbe"), (7549, "2126"),
  (7615, "1e9e"), (8294, "212b"), (8415, "212a"), (10727, "2c64"), (10743, "2c62"), (10749, "2c6e"),
  (10780, "2c6d"), (10782, "2c70"), (10783, "2c6f"), (10792, "2c66"), (10795, "2c65"),
  (10815, "2c7e-1"), (35266, "a64a"), (35267, "a64b"), (35332, "a77d"), (35384, "a7c6"),
  (38864, "ab70-4f"), (42258, "a7b0"), (42261, "a7b2"), (42280, "a78d"), (42282, "a7b1"),
  (42305, "a7ad"), (42307, "a7c5"), (42308, "a7aa 4"), (42315, "a7ac"), (42319, "a7ab"),
  (42343, "a7cb"), (42561, "a7dc")]

def caseKeys : List (Nat × Nat) :=
  caseShifts.flatMap fun (shift, table) =>
    (CharSet.read table).codes.map fun code => (code, code - shift)

def CharSet.folded (set : CharSet) : CharSet :=
  let keys := (caseKeys.filter fun (code, _) => set.containsCode code).map Prod.snd
  let withKeys := set.union (ofCodes keys)
  let variants := (caseKeys.filter fun (_, key) => withKeys.containsCode key).map Prod.fst
  withKeys.union (ofCodes variants)

end FunctionFlow
