namespace InfoFlow.Random.Ziggurat

/-- Right edges of the layers under the normal density. -/
def normalEdges : Array Float := #[
  3.91075795953709, 3.654152885361009, 3.4492782985609645, 3.320244733839166, 3.224575052047029,
  3.14788928951715, 3.083526132001233, 3.0278377917686354, 2.978603279880845, 2.9343668672078542,
  2.894121053612348, 2.8571387308721325, 2.822877396825325, 2.7909211740007858, 2.7609440052788226,
  2.732685359042827, 2.705933656121858, 2.680514643284522, 2.6562830375755024, 2.6331163936303246,
  2.6109105184875485, 2.589575986706995, 2.5690354526805366, 2.5492215503234608, 2.530075232158517,
  2.5115444416253423, 2.4935830412696807, 2.4761499396691433, 2.4592083743333113,
  2.4427253181989568, 2.426670984935726, 2.4110184138996855, 2.3957431197804806, 2.380822795170626,
  2.3662370567158186, 2.35196722737766, 2.3379961487950314, 2.324308018869623, 2.31088825059985,
  2.2977233489013296, 2.284800802722946, 2.272108990226824, 2.259637095172218, 2.2473750329458078,
  2.235313384928328, 2.2234433400909057, 2.2117566428825444, 2.200245546609648, 2.1889027716247207,
  2.1777214677386416, 2.166695180352646, 2.1558178198750633, 2.1450836340462036, 2.13448718284432,
  2.1240233156878157, 2.113687150684934, 2.103474055713147, 2.0933796311370503, 2.083399693996552,
  2.0735302635169788, 2.0637675478099564, 2.054107931648865, 2.044547965215733, 2.0350843537278087,
  2.025713947862033, 2.0164337349043717, 2.007240830558685, 1.9981324713565642, 1.9891060076155713,
  1.9801588968985984, 1.9712886979317696, 1.962493064942462, 1.953769742382734, 1.945116560006754,
  1.936531428273759, 1.9280123340507183, 1.9195573365912288, 1.9111645637692822,
  1.9028322085484464, 1.89455852566871, 1.8863418285347764, 1.8781804862909777, 1.8700729210692368,
  1.8620176053976323, 1.8540130597581481, 1.8460578502831198, 1.8381505865807286,
  1.8302899196806666, 1.8224745400917832, 1.8147031759641676, 1.8069745913486934,
  1.7992875845475802, 1.79164098655001, 1.7840336595472763, 1.776464495522345, 1.768932414909078,
  1.7614363653167067, 1.753975320315455, 1.746548278279493, 1.739154261283669, 1.7317923140507072,
  1.7244615029457757, 1.7171609150155407, 1.709889657069006, 1.702646854797614, 1.6954316519322385,
  1.6882432094348587, 1.6810807047228233, 1.6739433309237604, 1.6668302961592867,
  1.6597408228557895, 1.6526741470806485, 1.6456295179023603, 1.6386061967731111,
  1.631603456932422, 1.6246205828305684, 1.6176568695705342, 1.6107116223673337, 1.603784156023583,
  1.5968737944202613, 1.5899798700216485, 1.5831017233934714, 1.5762387027333329,
  1.5693901634125345, 1.5625554675284397, 1.555733983466555, 1.5489250854715355,
  1.5421281532263476, 1.5353425714388431, 1.5285677294350246, 1.521803020758293,
  1.5150478427739924, 1.508301596278572, 1.5015636851127065, 1.4948335157777184,
  1.4881104970546544, 1.4813940396253757, 1.4746835556950255, 1.467978458615231,
  1.4612781625074078, 1.4545820818855233, 1.4478896312776697, 1.441200224845798,
  1.4345132760029464, 1.4278281970272904, 1.4211443986723231, 1.4144612897724647,
  1.4077782768433715, 1.4010947636762026, 1.3944101509250713, 1.3877238356868846,
  1.381035211072742, 1.3743436657700305, 1.367648583594318, 1.3609493430301018, 1.3542453167594306,
  1.3475358711773593, 1.3408203658931521, 1.3340981532160836, 1.3273685776246247, 1.32063097521773,
  1.313884673146869, 1.3071289890273539, 1.3003632303274337, 1.2935866937335176,
  1.2867986644897864, 1.2799984157103332, 1.2731852076618437, 1.2663582870146883,
  1.2595168860601442, 1.2526602218912979, 1.245787495544998, 1.2388978911020274, 1.231990574742445,
  1.225064693752808, 1.2181193754817266, 1.2111537262399112, 1.2041668301405601, 1.197157747875586,
  1.1901255154228016, 1.1830691426787607, 1.1759876120114898, 1.1688798767268338,
  1.1617448594415742, 1.1545814503558518, 1.1473885054167339, 1.1401648443639958,
  1.132909248648337, 1.1256204592112944, 1.118297174115063, 1.1109380460092495, 1.1035416794202682,
  1.0961066278476035, 1.0886313906495142, 1.0811144096988894, 1.0735540657878717,
  1.0659486747575067, 1.0582964833260065, 1.0505956645862071, 1.0428443131393705,
  1.0350404398286053, 1.0271819660307513, 1.0192667174605292, 1.0112924174349784,
  1.0032566795395914, 0.9951569996299431, 0.9869907470938463, 0.9787551552889378,
  0.9704473110588646, 0.9620641432176052, 0.9536024098755727, 0.9450586844625711,
  0.9364293402808969, 0.9277105333962348, 0.918898183643735, 0.909987953490769, 0.9009752244551745,
  0.8918550707267924, 0.8826222295789101, 0.8732710680824946, 0.8637955455468269,
  0.8541891710015606, 0.8444449549024237, 0.8345553540795188, 0.8245122087452886,
  0.8143066701280643, 0.8039291169826649, 0.7933690588331528, 0.7826150232995888,
  0.7716544242167394, 0.7604734064220832, 0.7490566620095817, 0.7373872114258386,
  0.7254461409013035, 0.7132122851820227, 0.7006618410975844, 0.6877678927862577,
  0.6744998228274365, 0.660822574234206, 0.6466957148843889, 0.6320722363750246,
  0.6168969899962355, 0.6011046177439404, 0.5846167660937223, 0.567338257040473,
  0.5491517023130268, 0.5299097206464951, 0.5094233295859334, 0.48744396612175434,
  0.46363433677176324, 0.43751840218666266, 0.40838913458800075, 0.3751213328504657,
  0.33573751918045946, 0.2861745917472605, 0.2152418959132738, 0.0]

/-- Normal density, up to its constant factor, at the edges. -/
def normalHeights : Array Float := #[
  0.000477467764586655, 0.001260285930498598, 0.002609072746106363, 0.004037972593371872,
  0.005522403299264754, 0.00705087547139211, 0.008616582769422917, 0.0102149714397311,
  0.011842757857943104, 0.013497450601780807, 0.015177088307982072, 0.01688008315259584,
  0.01860512127578335, 0.020351096230109354, 0.022117062707379922, 0.023902203305873237,
  0.025705804008632656, 0.027527235669693315, 0.02936593975823011, 0.03122141719202369,
  0.0330932194586887, 0.03498094146183307, 0.03688421568869115, 0.03880270740465692,
  0.04073611065607875, 0.04268414491661938, 0.044646552251446536, 0.046623094902089664,
  0.048613553216035145, 0.05061772386112179, 0.05263541827697365, 0.054666461325077916,
  0.05671069010639947, 0.058767952921137984, 0.060838108349751806, 0.06292102443797785,
  0.06501657797147044, 0.06712465382802399, 0.06924514439725027, 0.07137794905914197,
  0.07352297371424099, 0.07568013035919496, 0.07784933670237221, 0.08003051581494751,
  0.08222359581349568, 0.08442850957065466, 0.08664519445086778, 0.08887359206859423,
  0.09111364806670073, 0.09336531191302662, 0.09562853671335333, 0.09790327903921563,
  0.10018949876917202, 0.10248715894230627, 0.10479622562286706, 0.10711666777507288,
  0.10944845714721002, 0.11179156816424558, 0.11414597782825521, 0.11651166562603701,
  0.1188886134433457, 0.12127680548523544, 0.1236762282020514, 0.12608687022065035,
  0.12850872228047364, 0.13094177717412817, 0.13338602969216284, 0.13584147657175735,
  0.13830811644906432, 0.1407859498149683, 0.14327497897404712, 0.14577520800653793,
  0.14828664273312872, 0.15080929068241017, 0.15334316106083767, 0.15588826472506456,
  0.15844461415652022, 0.16101222343811766, 0.16359110823298295, 0.16618128576511007,
  0.16878277480185033, 0.17139559563815562, 0.17401977008249936, 0.17665532144440665,
  0.1793022745235304, 0.1819606556002165, 0.18463049242750454, 0.18731181422451693,
  0.19000465167119307, 0.1927090369043288, 0.1954250035148856, 0.1981525865465381,
  0.20089182249543133, 0.2036427493111215, 0.2064054063986793, 0.20917983462193565,
  0.21196607630785294, 0.2147641752520085, 0.21757417672517837, 0.2203961274810116,
  0.2232300757647896, 0.22607607132326488, 0.22893416541557748, 0.23180441082524852,
  0.2346868618732527, 0.23758157443217368, 0.2404886059414491, 0.243408015423712,
  0.24633986350223877, 0.2492842124195167, 0.25224112605694377, 0.25521066995567715,
  0.258192911338648, 0.2611879191337637, 0.26419576399831757, 0.26721651834463184,
  0.27025025636696, 0.2732970540696758, 0.27635698929678126, 0.2794301417627653,
  0.2825165930848494, 0.2856164268166581, 0.28872972848335393, 0.291856585618281,
  0.29499708780116257, 0.29815132669790134, 0.3013193961020341, 0.3045013919778963,
  0.30769741250555377, 0.3109075581275637, 0.31413193159763014, 0.3173706380312224,
  0.32062378495823013, 0.323891482377732, 0.3271738428149586, 0.3304709813805371,
  0.3337830158321085, 0.3371100666384128, 0.34045225704594545, 0.34380971314829134,
  0.3471825639582515, 0.3505709414828812, 0.35397498080156925, 0.3573948201472905,
  0.36083060099117575, 0.3642824681305496, 0.3677505697805962, 0.37123505766982134,
  0.3747360871394914, 0.3782538172472381, 0.38178841087503135, 0.38534003484173396,
  0.3889088600204646, 0.39249506146101076, 0.3960988185175471, 0.39972031498193167,
  0.4033597392228689, 0.40701728433124795, 0.4106931482719832, 0.4143875340427068,
  0.4181006498396846, 0.4218327092313533, 0.4255839313399006, 0.4293545410313415,
  0.43314476911457406, 0.4369548525499293, 0.4407850346677699, 0.44463556539772775,
  0.44850670150921407, 0.4523987068638825, 0.45631185268077357, 0.4602464178149235,
  0.46420268905027884, 0.46818096140782217, 0.47218153846988326, 0.4762047327216838,
  0.4802508659112497, 0.4843202694289116, 0.48841328470771206, 0.49253026364614866,
  0.4966715690547963, 0.5008375751284821, 0.5050286679458288, 0.5092452459981361,
  0.513487720749743, 0.5177565172322006, 0.5220520746747949, 0.5263748471741867,
  0.5307253044061939, 0.5351039323830196, 0.5395112342595446, 0.5439477311926499,
  0.5484139632579211, 0.5529104904285199, 0.5574378936214863, 0.5619967758172779,
  0.5665877632589518, 0.571211506738075, 0.5758686829752105, 0.5805599961036835,
  0.5852861792663003, 0.590047996335792, 0.5948462437709913, 0.5996817526221677,
  0.6045553907005495, 0.6094680649288954, 0.6144207238920768, 0.6194143606090392,
  0.6244500155502742, 0.6295287799281283, 0.63465179929096, 0.639820277456439, 0.6450354808242519,
  0.6502987431142946, 0.6556114705832247, 0.6609751477802414, 0.6663913439123806,
  0.6718617199007664, 0.6773880362225131, 0.6829721616487914, 0.6886160830085271,
  0.6943219161300326, 0.7000919181404901, 0.7059285013367974, 0.7118342488823585,
  0.7178119326349014, 0.7238645334728816, 0.7299952645658024, 0.7362075981312667,
  0.7425052963446362, 0.7488924472237267, 0.7553735065117545, 0.7619533468415465,
  0.7686373158033348, 0.7754313049861383, 0.7823418326598619, 0.7893761435711986,
  0.7965423304282546, 0.8038494831763895, 0.8113078743182199, 0.8189291916094148,
  0.8267268339520942, 0.8347162929929304, 0.8429156531184411, 0.8513462584651237,
  0.8600336212030086, 0.8690086880437932, 0.8783096558161468, 0.8879846607633999,
  0.898095921906304, 0.9087264400605629, 0.9199915050483602, 0.9320600759689902, 0.945198953453078,
  0.9598790918124159, 0.9771017012827313, 1.0]

/-- Right edges of the layers under the exponential density. -/
def exponentialEdges : Array Float := #[
  8.697117470131053, 7.69711747013105, 6.941033629377213, 6.47837849383257, 6.144164665772473,
  5.8821443157954, 5.666410167454034, 5.4828906275260625, 5.323090505754398, 5.1814872813015,
  5.054288489981304, 4.9387770859012505, 4.832939741025112, 4.735242996601741, 4.644491885420085,
  4.559737061707351, 4.480211746528422, 4.405287693473573, 4.334443680317273, 4.267242480277366,
  4.203313713735184, 4.1423408656640515, 4.084051310408298, 4.028208544647937, 3.974606066673789,
  3.9230625001354897, 3.873417670399509, 3.8255294185223367, 3.779270992411668, 3.7345288940397974,
  3.691201090237419, 3.6491955157608538, 3.6084288131289095, 3.568825265648337, 3.5303158891293434,
  3.4928376547740596, 3.45633282113276, 3.42074835725112, 3.386035442460301, 3.3521490309001094,
  3.319047470970748, 3.2866921715990687, 3.25504730857045, 3.224079565286264, 3.1937579032122403,
  3.164053358025973, 3.1349388580844404, 3.1063890623398245, 3.0783802152540902, 3.050890016615455,
  3.0238975044556766, 2.9973829495161306, 2.9713277599210897, 2.9457143948950457,
  2.920526286512741, 2.895747768600142, 2.8713640120155364, 2.847360965635189, 2.8237253024500353,
  2.800444370250738, 2.7775061464397566, 2.7548991965623446, 2.7326126361947, 2.7106360958679288,
  2.6889596887418037, 2.6675739807732666, 2.646469963151809, 2.6256390267977885,
  2.6050729387408356, 2.5847638202141408, 2.5647041263169053, 2.54488662711187, 2.525304390037828,
  2.505950763528594, 2.4868193617402095, 2.467904050297365, 2.4491989329782498, 2.4306983392644197,
  2.4123968126888706, 2.394289099921458, 2.3763701405361406, 2.3586350574093373,
  2.3410791477030344, 2.3236978743901964, 2.30648685828358, 2.2894418705322694, 2.272558825553155,
  2.255833774367219, 2.239262898312909, 2.222842503111037, 2.206569013257664, 2.19043896672322,
  2.1744490099377747, 2.158595893043886, 2.142876465399842, 2.1272876713173683, 2.111826546019042,
  2.096490211801715, 2.081275874393225, 2.0661808194905755, 2.051202409468585, 2.0363380802487696,
  2.021585338318926, 2.0069417578945186, 1.9924049782135766, 1.9779727009573604,
  1.9636426877895483, 1.949412758007185, 1.9352807862970514, 1.921244700591528, 1.9073024800183875,
  1.8934521529393082, 1.8796917950722112, 1.866019527692828, 1.8524335159111756, 1.83893196701888,
  1.8255131289035198, 1.8121752885263906, 1.7989167704602909, 1.785735935484126,
  1.7726311792313056, 1.7596009308890748, 1.7466436519460744, 1.7337578349855716,
  1.7209420025219353, 1.7081947058780578, 1.695514524101538, 1.682900062917554, 1.6703499537164521,
  1.6578628525741728, 1.6454374393037237, 1.6330724165359913, 1.620766508828258,
  1.6085184617988584, 1.5963270412864834, 1.584191032532689, 1.5721092393862297, 1.560080483527888,
  1.5481036037145135, 1.536177455041032, 1.5243009082192263, 1.512472848872117, 1.5006921768428167,
  1.488957805516746, 1.4772686611561339, 1.4656236822457454, 1.4540218188487934,
  1.4424620319720125, 1.4309432929388797, 1.4194645827699832, 1.4080248915695357,
  1.3966232179170421, 1.385258568263122, 1.3739299563284906, 1.3626364025050868,
  1.3513769332583352, 1.3401505805295046, 1.3289563811371166, 1.3177933761763247,
  1.3066606104151741, 1.295557131686601, 1.2844819902750126, 1.2734342382962411,
  1.2624129290696153, 1.2514171164808525, 1.2404458543344066, 1.229498195693849,
  1.2185731922087901, 1.2076698934267611, 1.196787346088403, 1.1859245934042022,
  1.1750806743109117, 1.164254622705679, 1.1534454666557747, 1.1426522275816728,
  1.1318739194110785, 1.1211095477013302, 1.110358108727411, 1.0996185885325973,
  1.0888899619385468, 1.0781711915113723, 1.0674612264799677, 1.0567590016025514,
  1.0460634359770442, 1.0353734317905285, 1.0246878730026172, 1.0140056239570965,
  1.0033255279156967, 0.9926464055072759, 0.9819670530850626, 0.9712862409839033,
  0.9606027116686665, 0.949915177764076, 0.9392223199552623, 0.9285227847472104,
  0.9178151820700443, 0.9070980827156903, 0.8963700155898899, 0.8856294647617515,
  0.8748748662910251, 0.8641046048110045, 0.8533170098423734, 0.8425103518103685,
  0.8316828377342732, 0.8208326065544118, 0.8099577240574183, 0.7990561773554872,
  0.7881258688694924, 0.7771646097591297, 0.7661701127354347, 0.7551399841819822,
  0.7440717155005081, 0.7329626735843654, 0.7218100903087562, 0.710611050909655, 0.699362481103232,
  0.6880611327737478, 0.6767035680295226, 0.6652861413926779, 0.653804979847665,
  0.6422559604245364, 0.6306346849334903, 0.6189364513948761, 0.6071562216203, 0.5952885842915029,
  0.5833277127487695, 0.5712673165325883, 0.5591005855115406, 0.5468201251633106,
  0.5344178812371656, 0.521885051592135, 0.5092119824436544, 0.49638804551867116,
  0.48340149165346186, 0.470239275082169, 0.45688684093142024, 0.4433278660735524,
  0.4295439402254107, 0.41551416960035636, 0.40121467889627777, 0.3866179779411196,
  0.37169214532991723, 0.3563997602583938, 0.3406964810648491, 0.32452911701690945,
  0.30783295467493216, 0.2905279554912304, 0.2725131854784647, 0.253658363385912,
  0.23379048305967473, 0.21267151063096662, 0.18995868962243184, 0.16512762256418728,
  0.1373049809400126, 0.10483850756581878, 0.06385216381500157, 0.0]

/-- Exponential density at the edges. -/
def exponentialHeights : Array Float := #[
  0.000167066692307963, 0.000454134353841497, 0.000967269282327174, 0.001536299780301573,
  0.002145967743718907, 0.002788798793574076, 0.003460264777836904, 0.004157295120833797,
  0.004877655983542396, 0.005619642207205489, 0.006381905937319183, 0.007163353183634991,
  0.007963077438017043, 0.008780314985808977, 0.009614413642502212, 0.01046481018102998,
  0.0113310135978346, 0.012212592426255378, 0.013109164931254991, 0.014020391403181943,
  0.014945968011691148, 0.015885621839973156, 0.01683910682603994, 0.017806200410911355,
  0.018786700744696024, 0.01978042433800974, 0.020787204072578114, 0.02180688750428358,
  0.02283933540638524, 0.023884420511558174, 0.024942026419731787, 0.02601204664513422,
  0.027094383780955803, 0.028188948763978646, 0.02929566022463741, 0.03041444391046662,
  0.03154523217289362, 0.032687963508959555, 0.03384258215087436, 0.03500903769739743,
  0.03618728478193144, 0.03737728277295938, 0.03857899550307487, 0.03979239102337414,
  0.04101744138041484, 0.042254122413316254, 0.0435024135688882, 0.04476229773294329,
  0.046033761076175184, 0.04731679291318156, 0.048611385573379504, 0.04991753428270638,
  0.05123523705512628, 0.052564494593071685, 0.05390531019604608, 0.05525768967669703,
  0.05662164128374287, 0.05799717563120066, 0.05938430563342028, 0.06078304644547966,
  0.062193415408541036, 0.06361543199980738, 0.0650491177867538, 0.06649449638533982,
  0.06795159342193664, 0.06942043649872878, 0.07090105516237184, 0.07239348087570875,
  0.07389774699236475, 0.07541388873405841, 0.07694194317048052, 0.07848194920160644,
  0.0800339475423199, 0.08159798070923742, 0.0831740930096324, 0.08476233053236815,
  0.08636274114075693, 0.08797537446727023, 0.08960028191003289, 0.0912375166310402,
  0.09288713355604357, 0.09454918937605587, 0.09622374255043283, 0.09791085331149221,
  0.09961058367063713, 0.10132299742595363, 0.1030481601712577, 0.10478613930657014,
  0.10653700405000163, 0.10830082545103376, 0.11007767640518536, 0.11186763167005628,
  0.11367076788274429, 0.1154871635786335, 0.11731689921155553, 0.11916005717532764,
  0.12101672182667479, 0.12288697950954511, 0.12477091858083093, 0.12666862943751067,
  0.1285802045452282, 0.13050573846833077, 0.1324453279013875, 0.1343990717022136,
  0.13636707092642883, 0.13834942886358018, 0.1403462510748624, 0.14235764543247215,
  0.14438372216063472, 0.1464245938783449, 0.14848037564386674, 0.15055118500103984,
  0.1526371420274428, 0.15473836938446803, 0.15685499236936515, 0.15898713896931413,
  0.16113493991759195, 0.16329852875190173, 0.16547804187493592, 0.16767361861725008,
  0.16988540130252755, 0.17211353531531998, 0.1743581691713534, 0.17661945459049483,
  0.17889754657247828, 0.18119260347549626, 0.18350478709776744, 0.18583426276219708,
  0.18818119940425426, 0.19054576966319536, 0.1929281499767713, 0.1953285206795632,
  0.19774706610509882, 0.2001839746919112, 0.20263943909370896, 0.20511365629383765,
  0.20760682772422198, 0.21011915938898823, 0.21265086199297822, 0.21520215107537863,
  0.21777324714870047, 0.22036437584335944, 0.2229757680581201, 0.22560766011668396,
  0.22826029393071662, 0.23093391716962736, 0.2336287834374333, 0.23634515245705956,
  0.2390832902624491, 0.24184346939887713, 0.24462596913189202, 0.24743107566532754,
  0.25025908236886224, 0.2531102900156294, 0.2559850070304153, 0.2588835497490162,
  0.2618062426893629, 0.26475341883506215, 0.26772541993204474, 0.27072259679905997,
  0.2737453096528029, 0.2767939284485173, 0.27986883323697287, 0.28297041453878075,
  0.2860990737370768, 0.2892552234896777, 0.29243928816189263, 0.29565170428126125,
  0.29889292101558185, 0.3021634006756935, 0.30546361924459026, 0.3087940669345602,
  0.3121552487741796, 0.31554768522712895, 0.31897191284495724, 0.3224284849560892,
  0.32591797239355635, 0.32944096426413644, 0.3329980687618091, 0.3365899140286777,
  0.3402171490667802, 0.3438804447045026, 0.34758049462163715, 0.35131801643748345,
  0.3550937528667876, 0.35890847294875, 0.362762973354818, 0.3666580797815144, 0.3705946484351462,
  0.3745735676159024, 0.37859575940958107, 0.38266218149601006, 0.38677382908413793,
  0.3909317369847974, 0.39513698183329043, 0.39939068447523135, 0.40369401253053055,
  0.4080481831520327, 0.41245446599716146, 0.4169141864330032, 0.4214287289976169,
  0.4259995411430347, 0.43062813728845917, 0.4353161032156369, 0.4400651008423542,
  0.44487687341454885, 0.44975325116275533, 0.45469615747461584, 0.459707615642138,
  0.4647897562504265, 0.4699448252839603, 0.4751751930373777, 0.48048336393045454,
  0.48587198734188525, 0.49134386959403287, 0.4969019872415499, 0.5025495018413481,
  0.5082897764106432, 0.5141263938147489, 0.5200631773682339, 0.5261042139836201,
  0.5322538802630437, 0.5385168720028622, 0.5448982376724401, 0.5514034165406417,
  0.5580382822625879, 0.5648091929124006, 0.5717230486648262, 0.5787873586028454,
  0.5860103184772684, 0.5934009016917338, 0.6009689663652326, 0.6087253820796223,
  0.6166821809152079, 0.6248527387036662, 0.6332519942143664, 0.6418967164272664,
  0.6508058334145714, 0.6600008410790001, 0.6695063167319252, 0.6793505722647658,
  0.6895664961170784, 0.7001926550827886, 0.7112747608050765, 0.7228676595935725,
  0.735038092431424, 0.7478686219851957, 0.7614633888498968, 0.7759568520401162,
  0.7915276369724963, 0.808421651523009, 0.8269932966430511, 0.8477855006239905,
  0.8717043323812047, 0.9004699299257477, 0.9381436808621765, 1.0]

end InfoFlow.Random.Ziggurat
