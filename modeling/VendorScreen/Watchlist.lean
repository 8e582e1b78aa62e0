namespace VendorScreen

/-!
# Watchlists

Two lists of reverse-domain stems decide on names: identifiers that are never flagged, and stems
that mark a vendor. The flagged stems also have a regular expression as their written form.
-/

structure Watchlist where
  skip : List String
  flagged : List String
deriving DecidableEq, Repr

namespace Watchlist

def builtinSkip : List String := [
  "com.google",
  "com.android.chrome",
  "com.android.vending",
  "com.microsoft",
  "com.apple",
  "com.zhiliaoapp.musically"]

def builtinFlagged : List String := [
  "com.tencent",
  "com.alibaba",
  "com.umeng",
  "com.qihoo",
  "com.ali",
  "com.alipay",
  "com.amap",
  "com.sina",
  "com.weibo",
  "com.vivo",
  "com.xiaomi",
  "com.huawei",
  "com.taobao",
  "com.secneo",
  "s.h.e.l.l",
  "com.stub",
  "com.kiwisec",
  "com.secshell",
  "com.wrapper",
  "cn.securitystack",
  "com.mogosec",
  "com.secoen",
  "com.netease",
  "com.mx",
  "com.qq.e",
  "com.baidu",
  "com.bytedance",
  "com.bugly",
  "com.miui",
  "com.oppo",
  "com.coloros",
  "com.iqoo",
  "com.meizu",
  "com.gionee",
  "cn.nubia",
  "com.oplus",
  "andes.oplus",
  "com.unionpay",
  "cn.wps"]

def builtin : Watchlist := ⟨builtinSkip, builtinFlagged⟩

/-- What follows `stem` in `name`, if the name begins with it. -/
def rest? (stem name : String) : Option (List Char) := stem.toList.isPrefixOf? name.toList

/-- The identifier is `stem` itself or continues it after a dot. -/
def descends (stem id : String) : Bool :=
  match rest? stem id with
  | none => false
  | some [] => true
  | some (c :: _) => c = '.'

def isSkipped (w : Watchlist) (id : String) : Bool := w.skip.any fun stem => descends stem id

/-- The name begins with `stem`, and no line break follows in it. -/
def continues (stem name : String) : Bool :=
  match rest? stem name with
  | none => false
  | some rest => !rest.contains '\n'

/-- The stems that the written form compares with. An empty alternation is the empty stem. -/
def stems (flagged : List String) : List String := if flagged.isEmpty then [""] else flagged

theorem stems_of_ne_nil {flagged : List String} (h : flagged ≠ []) : stems flagged = flagged := by
  rw [stems, List.isEmpty_eq_false_iff.mpr h, if_neg Bool.false_ne_true]

def isFlagged (w : Watchlist) (name : String) : Bool :=
  (stems w.flagged).any fun stem => continues stem name

/-- The characters that have a meaning in a regular expression. -/
def isSpecial (c : Char) : Bool :=
  "\\.+*?()|[]\x7b\x7d^$#&-~".toList.contains c

def escapeStem (stem : List Char) : List Char :=
  stem.flatMap fun c => if isSpecial c then ['\\', c] else [c]

/-- The escaped stems with bars between them. -/
def alternation : List String → List Char
  | [] => []
  | [stem] => escapeStem stem.toList
  | stem :: rest => escapeStem stem.toList ++ '|' :: alternation rest

/-- The regular expression that matches the names beginning with one of the stems. -/
def pattern (flagged : List String) : String :=
  String.ofList ("^(?:".toList ++ alternation flagged ++ ").*$".toList)

end Watchlist

end VendorScreen
